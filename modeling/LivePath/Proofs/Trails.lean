import LivePath.Proofs.Announcements

/-!
# What a walk depends on

In a graph without foreign containers a walk is a function of the places that it reads
(`trail_congr`), and each of them that can change is one of its dependencies (`mem_dependencies`).
So a mutation that announces no topic of a dependency leaves the walk as it is (`trail_mutate`).
-/

namespace LivePath

/-- The dependency that goes with a place. Arrays never change. -/
def Place.dependency? : Place → Option Dependency
  | field o name => some (.field o name)
  | item o _ => some (.items o)
  | slot .. => none

def Place.visits (p : Place) : List Visit :=
  p.dependency?.toList.map .depends ++ [.reads p]

def Walk.reads (w : Walk) : List Place :=
  w.visits.filterMap fun
    | .depends _ => none
    | .reads p => some p

def Node.place (node : Node) (target : Value) : Except AccessError Place :=
  match node.step, target with
  | .attr name, .model o => .ok (.field o name)
  | .item index, .collection o => .ok (.item o index)
  | .item index, .array a => .ok (.slot a index)
  | _, other => .error (.typeMismatch node other.kind)

/-- The walk of one link. -/
def Node.stride (node : Node) (target : Value) (look : Place → Option Value) : Walk :=
  match node.place target with
  | .ok p => { visits := p.visits, outcome := .ok (look p) }
  | .error e => { outcome := .error e }

/-- A walk that goes on with one more link from a value that it found. -/
def Walk.join (w : Walk) (step : Value → Walk) : Walk :=
  match w.outcome with
  | .ok (some target) =>
    { visits := w.visits ++ (step target).visits, outcome := (step target).outcome }
  | _ => w

namespace Graph

def look {F : Type} (g : Graph F) : Place → Option Value
  | .field o name => (g.objects.get o).field? name
  | .item o index => (g.objects.get o).item? index
  | .slot a index => g.readSlot a index

variable {g g' : Graph Empty}

/-- How a walk goes where reading changes nothing. -/
def trail (g : Graph Empty) (a : Accessor) (root : Value) : Walk :=
  (g.walk a root).1

theorem walk_eq (g : Graph Empty) (a : Accessor) (root : Value) :
    g.walk a root = (g.trail a root, g) :=
  Prod.ext rfl (readTo_walk g a root).eq

theorem get_eq (g : Graph Empty) (a : Accessor) (root : Value) :
    g.get a root = ((g.trail a root).outcome, g) := by
  rw [get, walk_eq]

theorem readField_eq (g : Graph Empty) (o : ObjectId) (name : String) :
    g.readField o name = (g.look (.field o name), g) := by
  unfold readField
  split
  · next h => simp [look, h, Object.field?]
  · next h => simp [look, h, Object.field?]
  · next state _ => exact state.elim

theorem readItem_eq (g : Graph Empty) (o : ObjectId) (index : Nat) :
    g.readItem o index = (g.look (.item o index), g) := by
  unfold readItem
  split
  · next h => simp [look, h, Object.item?]
  · next h => simp [look, h, Object.item?]
  · next state _ => exact state.elim

theorem follow_eq (g : Graph Empty) (node : Node) (target : Value) :
    (g.follow node target).1 = node.stride target g.look := by
  unfold follow Node.stride Node.place
  rcases node.step with name | index <;> cases target <;>
    simp only [readField_eq, readItem_eq] <;> rfl

@[simp] theorem trail_join (g : Graph Empty) (parent : Accessor) (node : Node) (root : Value) :
    g.trail (parent.join node) root = (g.trail parent root).join fun target =>
      node.stride target g.look := by
  rw [trail, walk_join, walk_eq, Walk.join]
  simp only [← follow_eq]
  rcases (g.trail parent root).outcome with e | _ | target <;> rfl

end Graph

/-! ### Reads and dependencies -/

namespace Node
variable {node : Node} {target : Value} {look : Place → Option Value}

theorem mem_reads_stride {p : Place} :
    p ∈ (node.stride target look).reads ↔ node.place target = .ok p := by
  unfold stride
  split
  · next q hq =>
    rw [hq]
    cases q <;> simp [Walk.reads, Place.visits, Place.dependency?, eq_comm]
  · next e he => simp [he, Walk.reads]

theorem mem_dependencies_stride {d : Dependency} :
    d ∈ (node.stride target look).dependencies ↔ ∃ p, node.place target = .ok p ∧
      p.dependency? = some d := by
  unfold stride
  split
  · next q hq =>
    rw [hq]
    cases q <;> simp [Walk.dependencies, Place.visits, Place.dependency?, eq_comm]
  · next e he => simp [he, Walk.dependencies]

theorem stride_congr {look' : Place → Option Value}
    (h : ∀ p, node.place target = .ok p → look' p = look p) :
    node.stride target look' = node.stride target look := by
  unfold stride
  split
  · next p hp => rw [h p hp]
  · rfl

end Node

namespace Walk
variable {w : Walk} {step : Value → Walk}

theorem join_congr {step' : Value → Walk}
    (h : ∀ target, w.outcome = .ok (some target) → step' target = step target) :
    w.join step' = w.join step := by
  unfold join
  split
  · next target ht => rw [h target ht]
  · rfl

theorem mem_reads_join {p : Place} :
    p ∈ (w.join step).reads ↔ p ∈ w.reads ∨ ∃ target, w.outcome = .ok (some target) ∧
      p ∈ (step target).reads := by
  unfold join
  split
  · next target ht => simp [reads, ht]
  · next hne =>
    refine ⟨.inl, fun h => h.resolve_right ?_⟩
    rintro ⟨target, ht, -⟩
    exact hne target ht

theorem mem_dependencies_join {d : Dependency} :
    d ∈ (w.join step).dependencies ↔
      d ∈ w.dependencies ∨ ∃ target, w.outcome = .ok (some target) ∧
      d ∈ (step target).dependencies := by
  unfold join
  split
  · next target ht => simp [dependencies, ht]
  · next hne =>
    refine ⟨.inl, fun h => h.resolve_right ?_⟩
    rintro ⟨target, ht, -⟩
    exact hne target ht

end Walk

namespace Graph
variable {g g' : Graph Empty} {a : Accessor} {root : Value}

theorem trail_congr (h : ∀ p ∈ (g.trail a root).reads, g'.look p = g.look p) :
    g'.trail a root = g.trail a root := by
  induction a with
  | root => rfl
  | join parent node ih =>
    rw [trail_join] at h
    rw [trail_join, trail_join, ih fun p hp => h p (Walk.mem_reads_join.2 (.inl hp))]
    exact Walk.join_congr fun target ht => Node.stride_congr fun p hp =>
      h p (Walk.mem_reads_join.2 (.inr ⟨target, ht, Node.mem_reads_stride.2 hp⟩))

theorem mem_dependencies {p : Place} (h : p ∈ (g.trail a root).reads) {d : Dependency}
    (hd : p.dependency? = some d) :
    d ∈ (g.trail a root).dependencies := by
  induction a with
  | root => cases h
  | join parent node ih =>
    rw [trail_join] at h ⊢
    rcases Walk.mem_reads_join.1 h with h | ⟨target, ht, h⟩
    · exact Walk.mem_dependencies_join.2 (.inl (ih h))
    · exact Walk.mem_dependencies_join.2
        (.inr ⟨target, ht, Node.mem_dependencies_stride.2 ⟨p, Node.mem_reads_stride.1 h, hd⟩⟩)

theorem outcome_trail {e : AccessError} (h : (g.trail a root).outcome = .error e) :
    ∃ node kind, e = .typeMismatch node kind := by
  induction a with
  | root => cases h
  | join parent node ih =>
    rw [trail_join, Walk.join] at h
    split at h
    · unfold Node.stride Node.place at h
      simp only at h
      split at h
      · cases h
      · next he =>
        cases h
        split at he <;> cases he
        exact ⟨_, _, rfl⟩
    · exact ih h

/-! ### Mutations -/

/-- A mutation that announces no topic of a dependency leaves a walk as it is. -/
theorem trail_mutate (g : Graph Empty) (o : ObjectId) (m : Mutation)
    (h : ∀ d ∈ (g.trail a root).dependencies, d.target = o →
      ∀ t ∈ d.topics, t ∉ (g.mutate o m).topics) :
    (g.mutate o m).state.trail a root = g.trail a root := by
  obtain ⟨g', object, hr, hs, -, hann⟩ := exists_mutate (g := g) (S := fun _ => True) o (m := m)
    (fun _ _ => trivial) fun _ _ => trivial
  obtain rfl := hr.eq
  rw [hs]
  -- It is enough to look at the places that the walk reads.
  refine trail_congr fun p hp => ?_
  cases p with
  | field o' name =>
    show ((g'.objects.set o object).get o').field? name = (g'.objects.get o').field? name
    rw [Table.get_set]
    split
    · next ho =>
      subst ho
      exact hann.field name (h _ (mem_dependencies hp rfl) rfl _ (List.mem_singleton.2 rfl))
    · rfl
  | item o' index =>
    show ((g'.objects.set o object).get o').item? index = (g'.objects.get o').item? index
    rw [Table.get_set]
    split
    · next ho =>
      subst ho
      exact hann.item (h _ (mem_dependencies hp rfl) rfl) index
    · rfl
  | slot a' index => rfl

end Graph
end LivePath
