import LivePath.Proofs.Lifetimes
import LivePath.Proofs.Trails

/-!
# Nothing refers to what does not exist

In a closed world every value refers to something that exists, and to a collection only if it is
known as one (`World.Closed`). Commands keep a world closed, and all but the mutating ones only add
to its graph (`Move.extends`). A walk that begins at something that exists never leaves what exists,
so that what is added does not matter to it (`trail_extends`).
-/

namespace LivePath

def Place.KnownIn {F : Type} (g : Graph F) : Place → Prop
  | field o _ => o < g.objects.next
  | item o _ => o < g.objects.next
  | slot a _ => a < g.arrays.next

namespace Graph
variable {F : Type} {g g' g'' : Graph F}

/-- What objects and arrays hold exists. -/
structure Closed (g : Graph F) : Prop where
  objects : ∀ o, Every (·.KnownIn g) (g.objects.get o).values
  arrays : ∀ a, Every (·.KnownIn g) (g.arrays.get a)

/-- `g'` has all objects and arrays of `g`, and all are still collections that were. -/
structure Retains (g g' : Graph F) : Prop where
  objects_le : g.objects.next ≤ g'.objects.next
  arrays_le : g.arrays.next ≤ g'.arrays.next
  isCollection : ∀ o < g.objects.next, (g'.objects.get o).isCollection =
    (g.objects.get o).isCollection

/-- `g'` has all objects and arrays of `g` as they are, and maybe more. -/
structure Extends (g g' : Graph F) : Prop where
  objects_le : g.objects.next ≤ g'.objects.next
  arrays_le : g.arrays.next ≤ g'.arrays.next
  objects : ∀ o < g.objects.next, g'.objects.get o = g.objects.get o
  arrays : ∀ a < g.arrays.next, g'.arrays.get a = g.arrays.get a

namespace Extends

theorem of_eq (ho : g'.objects = g.objects) (ha : g'.arrays = g.arrays) : g.Extends g' :=
  ⟨Nat.le_of_eq (congrArg Table.next ho).symm, Nat.le_of_eq (congrArg Table.next ha).symm,
    fun _ _ => by rw [ho], fun _ _ => by rw [ha]⟩

theorem refl (g : Graph F) : g.Extends g :=
  .of_eq rfl rfl

theorem trans (h : g.Extends g') (h' : g'.Extends g'') : g.Extends g'' where
  objects_le := Nat.le_trans h.objects_le h'.objects_le
  arrays_le := Nat.le_trans h.arrays_le h'.arrays_le
  objects o ho := (h'.objects o (Nat.lt_of_lt_of_le ho h.objects_le)).trans (h.objects o ho)
  arrays a ha := (h'.arrays a (Nat.lt_of_lt_of_le ha h.arrays_le)).trans (h.arrays a ha)

theorem pushArray (g : Graph F) (vs : List Value) :
    g.Extends { g with arrays := g.arrays.push vs } :=
  ⟨Nat.le_refl _, by simp, fun _ _ => rfl, fun _ ha => Table.get_push_ne _ (Nat.ne_of_lt ha) _⟩

theorem pushObject (g : Graph F) (object : Object F) :
    g.Extends { g with objects := g.objects.push object } :=
  ⟨by simp, Nat.le_refl _, fun _ ho => Table.get_push_ne _ (Nat.ne_of_lt ho) _, fun _ _ => rfl⟩

theorem retains (h : g.Extends g') : g.Retains g' :=
  ⟨h.objects_le, h.arrays_le, fun o ho => congrArg Object.isCollection (h.objects o ho)⟩

theorem look (h : g.Extends g') {p : Place} (hp : p.KnownIn g) : g'.look p = g.look p := by
  cases p with
  | field o name => exact congrArg (Object.field? name) (h.objects o hp)
  | item o index => exact congrArg (Object.item? index) (h.objects o hp)
  | slot a index => exact congrArg (·[index]?) (h.arrays a hp)

end Extends

theorem Retains.setObject (g : Graph F) (o : ObjectId) {object : Object F}
    (h : object.isCollection = (g.objects.get o).isCollection) :
    g.Retains { g with objects := g.objects.set o object } :=
  ⟨Table.next_le_set .., Nat.le_refl _, fun o' _ => Table.apply_get_set Object.isCollection h o'⟩

end Graph

section
variable {F : Type} {g g' : Graph F}

theorem Value.KnownIn.mono {v : Value} (h : v.KnownIn g) (hg : g.Retains g') : v.KnownIn g' := by
  cases v with
  | array a => exact Nat.lt_of_lt_of_le h hg.arrays_le
  | model o => exact ⟨Nat.lt_of_lt_of_le h.1 hg.objects_le, (hg.isCollection o h.1).trans h.2⟩
  | collection o => exact ⟨Nat.lt_of_lt_of_le h.1 hg.objects_le, (hg.isCollection o h.1).trans h.2⟩
  | _ => trivial

theorem Value.KnownIn.extends {v : Value} (h : v.KnownIn g) (he : g.Extends g') : v.KnownIn g' :=
  h.mono he.retains

theorem Place.KnownIn.mono {p : Place} (h : p.KnownIn g) (hg : g.Retains g') :
    p.KnownIn g' := by
  cases p with
  | field o name => exact Nat.lt_of_lt_of_le h hg.objects_le
  | item o index => exact Nat.lt_of_lt_of_le h hg.objects_le
  | slot a index => exact Nat.lt_of_lt_of_le h hg.arrays_le

theorem Value.KnownIn.exists_model {g : Graph Empty} {o : ObjectId} (h : (model o).KnownIn g) :
    ∃ fields, g.objects.get o = .model fields := by
  obtain ⟨-, hc⟩ := h
  cases ho : g.objects.get o with
  | model fields => exact ⟨fields, rfl⟩
  | collection items ranking => rw [ho] at hc; cases hc
  | foreign state => exact state.elim

theorem Node.known_place {node : Node} {target : Value} {p : Place} (hp : node.place target = .ok p)
    (h : target.KnownIn g) : p.KnownIn g := by
  unfold place at hp
  split at hp <;> cases hp
  · exact h.1
  · exact h.1
  · exact h

theorem Graph.Closed.known_look (hc : g.Closed) {p : Place} {v : Value} (h : g.look p = some v) :
    v.KnownIn g := by
  cases p with
  | field o name => exact hc.objects o v (Object.mem_values_of_field? h)
  | item o index => exact hc.objects o v (Object.mem_values_of_item? h)
  | slot a index => exact hc.arrays a v (List.mem_of_getElem? h)

end

namespace Graph.Closed
variable {F : Type} {g g' : Graph F}

theorem of_eq (h : g.Closed) (ho : g'.objects = g.objects) (ha : g'.arrays = g.arrays) :
    g'.Closed := by
  have he : g.Extends g' := .of_eq ho ha
  exact ⟨fun o v hv => (h.objects o v (ho ▸ hv)).extends he, fun a v hv =>
    (h.arrays a v (ha ▸ hv)).extends he⟩

theorem pushArray (h : g.Closed) {vs : List Value} (hv : Every (·.KnownIn g) vs) :
    Closed { g with arrays := g.arrays.push vs } := by
  have he : g.Extends { g with arrays := g.arrays.push vs } := .pushArray g vs
  refine ⟨fun o v hm => (h.objects o v hm).extends he, fun a v hm => Value.KnownIn.extends ?_ he⟩
  by_cases ha : a = g.arrays.next
  · rw [ha, Table.get_push_next] at hm; exact hv v hm
  · rw [Table.get_push_ne _ ha] at hm; exact h.arrays a v hm

theorem pushObject (h : g.Closed) {object : Object F} (hv : Every (·.KnownIn g) object.values) :
    Closed { g with objects := g.objects.push object } := by
  have he : g.Extends { g with objects := g.objects.push object } := .pushObject g object
  refine ⟨fun o v hm => Value.KnownIn.extends ?_ he, fun a v hm => (h.arrays a v hm).extends he⟩
  by_cases ho : o = g.objects.next
  · rw [ho, Table.get_push_next] at hm; exact hv v hm
  · rw [Table.get_push_ne _ ho] at hm; exact h.objects o v hm

theorem setObject (h : g.Closed) (o : ObjectId) {object : Object F}
    (hv : Every (·.KnownIn g) object.values)
    (hk : object.isCollection = (g.objects.get o).isCollection) :
    Closed { g with objects := g.objects.set o object } := by
  have hg : g.Retains { g with objects := g.objects.set o object } := .setObject g o hk
  refine ⟨fun o' v hm => Value.KnownIn.mono ?_ hg, fun a v hm => (h.arrays a v hm).mono hg⟩
  rw [Table.get_set] at hm
  split at hm
  · exact hv v hm
  · exact h.objects o' v hm

end Graph.Closed

namespace Graph
variable {g g' : Graph Empty} {a : Accessor} {root : Value}

theorem known_trail (hc : g.Closed) (hr : root.KnownIn g) :
    (∀ p ∈ (g.trail a root).reads, p.KnownIn g) ∧ ∀ v, (g.trail a root).outcome = .ok (some v) →
      v.KnownIn g := by
  induction a with
  | root => exact ⟨nofun, fun v hv => by cases hv; exact hr⟩
  | join parent node ih =>
    obtain ⟨hreads, hfound⟩ := ih
    rw [trail_join]
    refine ⟨fun p hp => ?_, fun v hv => ?_⟩
    · rcases Walk.mem_reads_join.1 hp with hp | ⟨target, ht, hp⟩
      · exact hreads p hp
      · exact Node.known_place (Node.mem_reads_stride.1 hp) (hfound target ht)
    · unfold Walk.join at hv
      split at hv
      · unfold Node.stride at hv
        simp only at hv
        split at hv
        · exact hc.known_look (Except.ok.inj hv)
        · cases hv
      · next hne => exact absurd hv (hne v)

/-- What is added to a graph does not matter to a walk from what existed. -/
theorem trail_extends (hc : g.Closed) (hr : root.KnownIn g) (he : g.Extends g') :
    g'.trail a root = g.trail a root :=
  trail_congr fun p hp => he.look ((known_trail hc hr).1 p hp)

theorem trail_of_eq (ho : g'.objects = g.objects) (ha : g'.arrays = g.arrays) :
    g'.trail a root = g.trail a root := by
  refine trail_congr fun p _ => ?_
  unfold look readSlot
  rw [ho, ha]

end Graph

/-! ### Trackers -/

namespace Tracker
variable {g g' : Graph Empty} {id : TrackerId} {a : Accessor} {root : Value}

theorem exists_bind {t : Tracker} {es : List LogEntry} (h : bind id a root g = (.ok (t, es), g')) :
    (g.trail a root).outcome = .ok t.last ∧
      t = { root, accessor := a, last := t.last, records := t.records } ∧
      t.observes (g.trail a root).dependencies = true ∧ g'.objects = g.objects ∧
      g'.arrays = g.arrays := by
  obtain ⟨g₁, g₂, w, hget, hwalk, ht, hr, -, rfl, -⟩ := exists_bind_ok h
  rw [Graph.get_eq] at hget
  obtain ⟨ho, rfl⟩ := Prod.mk.inj hget
  rw [Graph.walk_eq] at hwalk
  obtain ⟨rfl, rfl⟩ := Prod.mk.inj hwalk
  exact ⟨ho, ht, by simpa [observes] using hr, by simp, by simp⟩

theorem graph_bind_error {e : AccessError} (h : bind id a root g = (.error e, g')) :
    g'.objects = g.objects ∧ g'.arrays = g.arrays := by
  obtain ⟨g₁, hr, ps, rfl⟩ := exists_bind_error h
  obtain rfl := hr.eq
  exact ⟨by simp, by simp⟩

theorem graph_dispose (t : Tracker) :
    (t.dispose g).graph.objects = g.objects ∧ (t.dispose g).graph.arrays = g.arrays := by
  by_cases hp : t.phase = .disposed
  · rw [(dispose_of_disposed hp g).2]; exact ⟨rfl, rfl⟩
  · rw [(dispose_of_not_disposed hp g).2]; exact ⟨by simp, by simp⟩

theorem graph_pass (id : TrackerId) (t : Tracker) :
    (t.pass id g).1.graph.objects = g.objects ∧ (t.pass id g).1.graph.arrays = g.arrays := by
  obtain ⟨g₁, ps, hr, -, hr'⟩ := exists_pass id t g
  rw [hr'.eq]
  obtain rfl := hr.eq
  exact ⟨by simp, by simp⟩

end Tracker

/-! ### Worlds -/

namespace World
variable {w w' : World Empty}

/-- Everything that is referred to exists. -/
structure Closed (w : World Empty) : Prop where
  graph : w.graph.Closed
  names : ∀ e ∈ w.names.objects, ∀ v ∈ e.2.value?, v.KnownIn w.graph
  roots : ∀ id, (w.trackers.get id).root.KnownIn w.graph

theorem Closed.known (h : w.Closed) {v : Value} (hv : w.Denotes v) : v.KnownIn w.graph := by
  cases hv with
  | array ha => exact ha
  | named hm hv => exact h.names _ hm v hv
  | _ => trivial

theorem Closed.every (h : w.Closed) {vs : List Value} (hv : Every w.Denotes vs) :
    Every (·.KnownIn w.graph) vs :=
  fun v hm => h.known (hv v hm)

theorem Move.extends (h : Move w w') : w.graph.Extends w'.graph := by
  cases h with
  | read h => rw [h.eq]; exact .refl _
  | addArray hv => exact .pushArray ..
  | addObject hv => exact .pushObject ..
  | subscribe => exact .of_eq (Graph.objects_observeAll ..) (Graph.arrays_observeAll ..)
  | giveUp => exact .of_eq (by simp) (by simp)
  | unsubscribe => exact .of_eq (Graph.objects_unobserveAll ..) (Graph.arrays_unobserveAll ..)
  | bind name hb hr =>
    obtain ⟨-, -, -, ho, ha⟩ := Tracker.exists_bind hb
    exact .of_eq ho ha
  | bindFailed hb =>
    obtain ⟨ho, ha⟩ := Tracker.graph_bind_error hb
    exact .of_eq ho ha
  | dispose =>
    obtain ⟨ho, ha⟩ := Tracker.graph_dispose (g := w.graph) (w.trackers.get _)
    exact .of_eq ho ha
  | _ => exact .of_eq rfl rfl

theorem Closed.of_extends (h : w.Closed) (hg : w'.graph.Closed) (he : w.graph.Extends w'.graph)
    (hn : w'.names.objects = w.names.objects)
    (hr : ∀ id, (w'.trackers.get id).root = (w.trackers.get id).root) :
    w'.Closed :=
  ⟨hg, fun e hm v hv => (h.names e (hn ▸ hm) v hv).extends he, fun id =>
    hr id ▸ (h.roots id).extends he⟩

theorem Move.closed (hm : Move w w') (h : w.Closed) : w'.Closed := by
  have he := hm.extends
  cases hm with
  | read hr =>
    exact h.of_extends (h.graph.of_eq (by rw [hr.eq]) (by rw [hr.eq])) he rfl fun _ => rfl
  | addArray hv => exact h.of_extends (h.graph.pushArray (h.every hv)) he rfl fun _ => rfl
  | addObject hv => exact h.of_extends (h.graph.pushObject (h.every hv)) he rfl fun _ => rfl
  | nameObject name hn =>
    refine ⟨h.graph, fun e hm v hv => ?_, h.roots⟩
    rcases List.mem_cons.1 hm with rfl | hm
    · exact hn v hv
    · exact h.names e hm v hv
  | subscribe =>
    exact h.of_extends (h.graph.of_eq (Graph.objects_observeAll ..) (Graph.arrays_observeAll ..)) he
      rfl fun _ => rfl
  | giveUp => exact h.of_extends (h.graph.of_eq (by simp) (by simp)) he rfl fun _ => rfl
  | unsubscribe => exact h.of_extends (h.graph.of_eq (by simp) (by simp)) he rfl fun _ => rfl
  | bind name hb hr =>
    obtain ⟨-, ht, -, ho, ha⟩ := Tracker.exists_bind hb
    refine ⟨h.graph.of_eq ho ha, fun e hm v hv => (h.names e hm v hv).extends he, fun j => ?_⟩
    show ((w.trackers.push _).get j).root.KnownIn _
    by_cases hj : j = w.trackers.next
    · rw [hj, Table.get_push_next, ht]; exact (h.known hr).extends he
    · rw [Table.get_push_ne _ hj]; exact (h.roots j).extends he
  | bindFailed hb =>
    obtain ⟨ho, ha⟩ := Tracker.graph_bind_error hb
    exact h.of_extends (h.graph.of_eq ho ha) he rfl fun _ => rfl
  | clone | drop | listeners =>
    exact h.of_extends h.graph he rfl (Table.apply_get_set Tracker.root rfl)
  | dispose =>
    obtain ⟨ho, ha⟩ := Tracker.graph_dispose (g := w.graph) (w.trackers.get _)
    exact h.of_extends (h.graph.of_eq ho ha) he rfl
      (Table.apply_get_set Tracker.root (Tracker.Continues.dispose _).root)
  | _ => exact h.of_extends h.graph he rfl fun _ => rfl

theorem Moves.extends (hm : Moves w w') : w.graph.Extends w'.graph := by
  induction hm with
  | refl => exact .refl _
  | tail _ hm ih => exact ih.trans hm.extends

theorem Moves.closed (hm : Moves w w') (h : w.Closed) : w'.Closed := by
  induction hm with
  | refl => exact h
  | tail _ hm ih => exact hm.closed ih

theorem Closed.mutate (h : w.Closed) (o : ObjectId) {m : Mutation} (hv : Every w.Denotes m.values) :
    Closed { w with graph := (w.graph.mutate o m).state } := by
  obtain ⟨g', object, hr, hs, hvalues, hann⟩ :=
    Graph.exists_mutate o (h.graph.objects o) (h.every hv)
  obtain rfl := hr.eq
  rw [hs]
  have hg : w.graph.Retains { w.graph with objects := w.graph.objects.set o object } :=
    .setObject w.graph o hann.isCollection
  exact ⟨h.graph.setObject o hvalues hann.isCollection, fun e hm v hv =>
    (h.names e hm v hv).mono hg, fun id => (h.roots id).mono hg⟩

theorem Does.closed {notice : Notice} (hd : w.Does w' notice) (h : w.Closed) : w'.Closed := by
  cases hd with
  | moves hm => exact Moves.closed hm h
  | mutates hm o hv => exact (hm.closed h).mutate o hv

theorem Closed.pass (h : w.Closed) (id : TrackerId) :
    (w.retrack id ((w.trackers.get id).pass id w.graph).1).Closed := by
  obtain ⟨ho, ha⟩ := Tracker.graph_pass (g := w.graph) id (w.trackers.get id)
  exact h.of_extends (h.graph.of_eq ho ha) (.of_eq ho ha) rfl
    (Table.apply_get_set Tracker.root (Tracker.root_pass ..))

end World

namespace Machine
variable {m m' : Machine Empty}

theorem Turn.closed {frame : Frame Empty} (ht : m.Turn frame m') (h : m.world.Closed) :
    m'.world.Closed := by
  cases ht with
  | perform c cs => rw [world_notify]; exact (m.does_perform c).closed h
  | pass | again => exact h.pass _
  | mark | settle => exact h.of_extends h.graph (.refl _) rfl (Table.apply_get_set Tracker.root rfl)
  | _ => exact h.of_extends h.graph (.refl _) rfl fun _ => rfl

theorem Step.closed (hs : m.Step m') (h : m.world.Closed) : m'.world.Closed := by
  cases hs with
  | turn hn =>
    obtain ⟨frame, m₀, rfl, ht⟩ := exists_turn hn
    exact ht.closed h
  | command _ c =>
    rw [begin, world_notify]
    exact (m.afresh.does_perform c).closed (h.of_extends h.graph (.refl _) rfl fun _ => rfl)
  | divert => exact h

theorem Reachable.closed (h : m.Reachable) : m.world.Closed :=
  h.rec_step ⟨⟨fun _ => .nil, fun _ => .nil⟩, nofun, fun _ => trivial⟩ fun _ _ => Step.closed

end Machine
end LivePath
