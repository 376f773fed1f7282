import LivePath.Proofs.Contents
import LivePath.Proofs.Handlings
import LivePath.Proofs.Polling

/-!
# Assignments

An assignment through an accessor walks to the parent of the place and then assigns a field of the
model that it found there. It fails where reading the place fails, with the same error, and moreover
where the parent is absent; then nothing at all happens (`set_fails_with_get_or_absent_parent`).
Otherwise one field of one model changes, and no walk notices that does not depend on it
(`trail_assign`). If the walk to the model is one of these, reading the place finds what was
assigned, for as long as listeners mutate nothing (`get_after_set`).
-/

namespace LivePath

theorem Fields.exists_get?_assign (f : Fields) (name : String) (v : Value) :
    ∃ w, (f.assign [] [(name, v)]).1.get? name = some w ∧
      if (f.get? name).any (·.same v) then f.get? name = some w else w = v := by
  cases h : (f.get? name).any (·.same v)
  · refine ⟨v, ?_, rfl⟩
    simp [assign, changesBy, h]
  · obtain ⟨w, hw⟩ : ∃ w, f.get? name = some w := by
      cases hf : f.get? name with
      | none => rw [hf] at h; cases h
      | some w => exact ⟨w, rfl⟩
    refine ⟨w, ?_, hw⟩
    simpa [assign, changesBy, h] using hw

namespace Graph
variable {g g' : Graph Empty} {node : Node} {name : String} {o : ObjectId}

/-! ### Attributes, told by what the parent of the place is -/

theorem outcome_trail_attr (hn : node.step = .attr name) (g : Graph Empty) (parent : Accessor)
    (root : Value) :
    (g.trail (parent.join node) root).outcome =
      match (g.trail parent root).outcome with
      | .ok (some (.model o)) => .ok (g.look (.field o name))
      | .ok (some other) => .error (.typeMismatch node other.kind)
      | stopped => stopped := by
  rw [trail_join, Walk.join]
  rcases h : (g.trail parent root).outcome with e | _ | target
  · exact h
  · exact h
  · cases target <;> simp only [Node.stride, Node.place, hn]

theorem set_attr (hn : node.step = .attr name) (g : Graph Empty) (parent : Accessor)
    (root v : Value) :
    g.set (parent.join node) root v =
      match (g.trail parent root).outcome with
      | .error e => (.error e, g)
      | .ok none => (.error (.missingParent node), g)
      | .ok (some (.model o)) =>
        (.ok (o, (g.mutate o (.fields (.assign [(name, v)]))).topics),
          (g.mutate o (.fields (.assign [(name, v)]))).state)
      | .ok (some other) => (.error (.typeMismatch node other.kind), g) := by
  rw [set, assignee]
  simp only [hn, get_eq]
  rcases (g.trail parent root).outcome with e | _ | target
  · rfl
  · rfl
  · cases target <;> rfl

theorem exists_mutate_of_set {parent : Accessor} {root v : Value} {topics : List Topic}
    (hn : node.step = .attr name) (h : (g.set (parent.join node) root v).1 = .ok (o, topics)) :
    (g.trail parent root).outcome = .ok (some (.model o)) ∧
      g.set (parent.join node) root v =
        (.ok (o, topics), (g.mutate o (.fields (.assign [(name, v)]))).state) := by
  rw [set_attr hn] at h ⊢
  split at h
  · cases h
  · cases h
  · next hp => cases h; rw [hp]; exact ⟨rfl, rfl⟩
  · cases h

theorem set_of_error {a : Accessor} {root v : Value} {e : AccessError}
    (h : (g.set a root v).1 = .error e) :
    g.set a root v = (.error e, g) := by
  have hg := g.assignee_eq a root
  unfold set at h ⊢
  split at h
  · next hs => cases h; rw [hs] at hg; exact congrArg (Prod.mk _) hg
  · cases h

theorem set_of_kind_ne {a : Accessor} {root v : Value} (h : a.kind ≠ .attr) :
    (g.set a root v).1 = .error (.unsupported a.kind) := by
  cases a with
  | root => rfl
  | join parent node =>
    cases hn : node.step with
    | attr name => exact absurd (by rw [Accessor.kind, hn]; rfl) h
    | item index => simp only [set, assignee, Accessor.kind, hn]; rfl

/-! ### The assignment of one field -/

section
variable {fields : Fields} (h : g.objects.get o = .model fields)
include h

theorem topics_assign {v : Value} {t : Topic}
    (ht : t ∈ (g.mutate o (.fields (.assign [(name, v)]))).topics) :
    t = .change name := by
  rw [mutate_of_model h] at ht
  simp only [Changed.map, FieldChange.apply, Fields.assign] at ht
  split at ht
  · simpa using ht
  · cases ht

theorem retains_assign (v : Value) :
    g.Retains (g.mutate o (.fields (.assign [(name, v)]))).state := by
  rw [mutate_of_model h]
  exact .setObject g o (by rw [h]; rfl)

theorem exists_look_assign (name : String) (v : Value) :
    ∃ w, (g.mutate o (.fields (.assign [(name, v)]))).state.look (.field o name) = some w ∧
      if (g.look (.field o name)).any (·.same v) then g.look (.field o name) = some w
        else w = v := by
  obtain ⟨w, hw, hold⟩ := fields.exists_get?_assign name v
  have hlook : g.look (.field o name) = fields.get? name := congrArg (Object.field? name) h
  refine ⟨w, ?_, hlook ▸ hold⟩
  rw [mutate_of_model h]
  show ((g.objects.set o _).get o).field? name = _
  rw [Table.get_set_self]
  exact hw

theorem trail_assign {a : Accessor} {root : Value} (v : Value)
    (hd : .field o name ∉ (g.trail a root).dependencies) :
    (g.mutate o (.fields (.assign [(name, v)]))).state.trail a root = g.trail a root := by
  refine trail_mutate g o _ fun d hm ho t ht hmem => ?_
  obtain rfl := topics_assign h hmem
  cases d with
  | field o' n =>
    obtain rfl : o' = o := ho
    cases List.mem_singleton.1 ht
    exact hd hm
  | items o' => simp [Dependency.topics, Topic.structural] at ht

theorem trail_extends_assign {a : Accessor} {root v : Value} (hc : g.Closed) (hr : root.KnownIn g)
    (he : Extends (g.mutate o (.fields (.assign [(name, v)]))).state g')
    (hd : .field o name ∉ (g.trail a root).dependencies) : g'.trail a root = g.trail a root := by
  have hsame := trail_assign h v hd
  rw [← hsame]
  refine trail_congr fun p hp => he.look (Place.KnownIn.mono ?_ (retains_assign h v))
  exact (known_trail hc hr).1 p (hsame ▸ hp)

end

end Graph

theorem World.assign_of_error {w : World Empty} {a : Accessor} {root v : Value} {e : AccessError}
    (h : (w.graph.set a root v).1 = .error e) :
    w.assign a root v = ⟨w, .failed (.access e), .silent⟩ := by
  rw [assign, Graph.set_of_error h]

theorem World.graph_assign (w : World Empty) (a : Accessor) (root v : Value) :
    (w.assign a root v).world.graph = (w.graph.set a root v).2 := by
  rw [assign]
  rcases w.graph.set a root v with ⟨e | r, g⟩ <;> rfl

namespace Machine
variable {m m' : Machine Empty}

/-- An assignment is made, and what it announces lies on top of all work that had begun. -/
def assigned (m : Machine Empty) (a : Accessor) (root v : Value) : Machine Empty :=
  notify { m with world := (m.world.assign a root v).world } (m.world.assign a root v).notice

theorem suffix_assigned (m : Machine Empty) (a : Accessor) (root v : Value) :
    m.stack <:+ (m.assigned a root v).stack :=
  suffix_notify { m with world := (m.world.assign a root v).world } _

/-! ### Failures -/

theorem assigned_of_error {a : Accessor} {root v : Value} {e : AccessError}
    (h : (m.world.graph.set a root v).1 = .error e) : m.assigned a root v = m := by
  rw [assigned, World.assign_of_error h]
  rfl

/--
To assign an attribute fails if reading it fails, with the same error, or if its parent is absent;
in no other case. To assign anything else always fails. An assignment that fails leaves everything
as it is: contents, registrations, the events so far, and the work to be done.
-/
theorem set_fails_with_get_or_absent_parent (m : Machine Empty) (root v : Value) :
    (∀ (parent : Accessor) (node : Node) (name : String), node.step = .attr name →
      (∀ n kind, (m.world.graph.set (parent.join node) root v).1 = .error (.typeMismatch n kind) ↔
        (m.world.graph.get (parent.join node) root).1 = .error (.typeMismatch n kind)) ∧
      (∀ n, (m.world.graph.set (parent.join node) root v).1 = .error (.missingParent n) ↔
        n = node ∧ (m.world.graph.get parent root).1 = .ok none) ∧
      ((∃ done, (m.world.graph.set (parent.join node) root v).1 = .ok done) ↔
        (∀ n kind, (m.world.graph.get (parent.join node) root).1 ≠ .error (.typeMismatch n kind)) ∧
          (m.world.graph.get parent root).1 ≠ .ok none)) ∧
    (∀ a : Accessor, a.kind ≠ .attr →
      (m.world.graph.set a root v).1 = .error (.unsupported a.kind)) ∧
    ∀ (a : Accessor) (e : AccessError), (m.world.graph.set a root v).1 = .error e →
      (m.world.assign a root v).answer = .failed (.access e) ∧ m.assigned a root v = m := by
  refine ⟨fun parent node name hn => ?_, fun a => Graph.set_of_kind_ne,
    fun a e he => ⟨by rw [World.assign_of_error he], assigned_of_error he⟩⟩
  simp only [Graph.get_eq, Graph.outcome_trail_attr hn, Graph.set_attr hn]
  cases ho : (m.world.graph.trail parent root).outcome with
  | error e =>
    obtain ⟨n, kind, rfl⟩ := Graph.outcome_trail ho
    simp
  | ok found =>
    cases found with
    | none => simp [eq_comm]
    | some target => cases target <;> simp

/-! ### What comes after an assignment -/

/-- Listeners go on, maybe with other commands, and mutate nothing. -/
inductive Calm : Machine Empty → Machine Empty → Prop
  /-- A command that mutates objects may still leave all of them as they are, if it fails for
  example. -/
  | turn {m : Machine Empty} (hs : m.stack ≠ [])
      (hq : m.mutates = true → m.world.graph.Extends m.next.world.graph) : Calm m m.next
  | divert {m : Machine Empty} {cs : List (Command Empty)} {rest : List (Frame Empty)}
      (h : m.stack = .script cs :: rest) (cs' : List (Command Empty)) :
      Calm m { m with stack := .script cs' :: rest }

abbrev Calmly : Machine Empty → Machine Empty → Prop :=
  Relation.ReflTransGen Calm

theorem Turn.extends {frame : Frame Empty} (ht : m.Turn frame m')
    (hq : (m.push frame).mutates = false) :
    m.world.graph.Extends m'.world.graph := by
  cases ht with
  | perform c cs => rw [world_notify]; exact (m.moves_perform hq).extends
  | pass | again =>
    obtain ⟨ho, ha⟩ := Tracker.graph_pass (g := m.world.graph) _ (m.world.trackers.get _)
    exact .of_eq ho ha
  | _ => exact .refl _

theorem Calm.extends (h : m.Calm m') : m.world.graph.Extends m'.world.graph := by
  cases h with
  | turn hs hq =>
    cases hm : m.mutates with
    | true => exact hq hm
    | false =>
      obtain ⟨frame, m₀, rfl, ht⟩ := exists_turn hs
      exact ht.extends hm
  | divert => exact .refl _

theorem Calmly.extends (h : m.Calmly m') : m.world.graph.Extends m'.world.graph := by
  induction h with
  | refl => exact .refl _
  | tail _ h ih => exact ih.trans h.extends

theorem calmly_iterate_next {n : Nat} (h : ∀ k < n, (next^[k] m).mutates = false) :
    m.Calmly (next^[n] m) := by
  induction n generalizing m with
  | zero => exact .refl
  | succ n ih =>
    by_cases hs : m.stack = []
    · rw [Function.iterate_fixed (next_of_rest hs)]
    · have hq : m.mutates = false := h 0 (Nat.zero_lt_succ n)
      exact .head (.turn hs fun hm => absurd (hq.symm.trans hm) nofun)
        (ih fun k hk => h (k + 1) (Nat.succ_lt_succ hk))

/--
After an assignment through an accessor whose own walk does not depend on the assigned field,
reading the place finds the value, or the one that was in place if the two are strictly equal. No
walk that did not depend on the field is changed. This holds from the moment of the assignment,
while it is announced and after that, as long as listeners change nothing; and the announcement
comes to an end. Graphs of reachable machines are closed (`Reachable.closed`).
-/
theorem get_after_set {parent : Accessor} {node : Node} {name : String} {root v : Value}
    {o : ObjectId} {topics : List Topic} (hc : m.world.graph.Closed)
    (hr : root.KnownIn m.world.graph) (hn : node.step = .attr name)
    (hset : (m.world.graph.set (parent.join node) root v).1 = .ok (o, topics))
    (hfree : .field o name ∉ (m.world.graph.walk parent root).1.dependencies)
    (hcalm : (m.assigned (parent.join node) root v).Calmly m') :
    (∃ w, (m'.world.graph.get (parent.join node) root).1 = .ok (some w) ∧
      if (m.world.graph.readField o name).1.any (·.same v) then (m.world.graph.readField o name).1 =
        some w
      else w = v) ∧
    (m'.world.graph.walk parent root).1 = (m.world.graph.walk parent root).1 ∧
    (∀ (a : Accessor) (r : Value), r.KnownIn m.world.graph →
      .field o name ∉ (m.world.graph.walk a r).1.dependencies →
      (m'.world.graph.walk a r).1 = (m.world.graph.walk a r).1) ∧
    ∃ n, (next^[n] (m.assigned (parent.join node) root v)).stack = m.stack := by
  obtain ⟨hparent, hs⟩ := Graph.exists_mutate_of_set hn hset
  have hknown : (Value.model o).KnownIn m.world.graph := (Graph.known_trail hc hr).2 _ hparent
  obtain ⟨fields, hfields⟩ := hknown.exists_model
  -- Since the assignment the graph was only added to.
  have he : Graph.Extends (m.world.graph.mutate o (.fields (.assign [(name, v)]))).state
      m'.world.graph := by
    have hg := hcalm.extends
    rwa [assigned, world_notify, World.graph_assign, hs] at hg
  have hwalk (a : Accessor) (r : Value) (hr : r.KnownIn m.world.graph)
      (hd : .field o name ∉ (m.world.graph.trail a r).dependencies) :
      m'.world.graph.trail a r = m.world.graph.trail a r :=
    Graph.trail_extends_assign hfields hc hr he hd
  refine ⟨?_, hwalk parent root hr hfree, hwalk, exists_stack_iterate_next (suffix_assigned ..)⟩
  obtain ⟨w, hw, hold⟩ := Graph.exists_look_assign hfields name v
  have ho : Place.KnownIn (m.world.graph.mutate o (.fields (.assign [(name, v)]))).state
      (.field o name) :=
    Place.KnownIn.mono hknown.1 (Graph.retains_assign hfields v)
  rw [Graph.readField_eq, Graph.get_eq, Graph.outcome_trail_attr hn,
    hwalk parent root hr hfree, hparent]
  refine ⟨w, ?_, hold⟩
  show Except.ok (m'.world.graph.look (.field o name)) = _
  rw [he.look ho, hw]

/-- In `looping` a model is an attribute of itself, and `self.name` is assigned. -/
theorem get_after_set_looping :
    let parent : Accessor := .join .root ⟨.attr "self", "self", 0⟩
    let node : Node := ⟨.attr "name", ".name", 4⟩
    let m' := next^[3] (looping.assigned (parent.join node) (.model 0) (.bool true))
    looping.Reachable ∧ m'.stack = looping.stack ∧
      (m'.world.graph.get (parent.join node) (.model 0)).1 = .ok (some (.bool true)) ∧
      (m'.world.graph.walk parent (.model 0)).1 =
        (looping.world.graph.walk parent (.model 0)).1 := by
  intro parent node m'
  have hknown : (Value.model 0).KnownIn looping.world.graph := ⟨by decide, rfl⟩
  have hset : (looping.world.graph.set (parent.join node) (.model 0) (.bool true)).1 =
      .ok (0, [.change "name"]) := rfl
  have hfree : .field 0 "name" ∉ (looping.world.graph.walk parent (.model 0)).1.dependencies := by
    decide
  have hcalm : (looping.assigned (parent.join node) (.model 0) (.bool true)).Calmly m' :=
    calmly_iterate_next (by decide)
  obtain ⟨⟨w, hw, hold⟩, hwalk, -⟩ :=
    get_after_set reachable_looping.closed.graph hknown rfl hset hfree hcalm
  obtain rfl : w = .bool true := hold
  exact ⟨reachable_looping, rfl, hw, hwalk⟩

/-- It is another matter if the walk leads through the assigned field: `self.self` is lost. -/
example :
    let a : Accessor := .join (.join .root ⟨.attr "self", "self", 0⟩) ⟨.attr "self", ".self", 4⟩
    let m := looping.assigned a (.model 0) (.bool true)
    (m.world.graph.get a (.model 0)).1 = .error (.typeMismatch ⟨.attr "self", ".self", 4⟩ .bool) :=
  rfl

end Machine
end LivePath
