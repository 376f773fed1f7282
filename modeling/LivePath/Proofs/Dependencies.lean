import LivePath.Proofs.Stacks
import LivePath.Proofs.Trails

/-!
# The dependencies of a walk are complete

Whoever observes the dependencies of a walk hears of every mutation that makes a difference to the
walk. For a walk is a function of what it reads, what it reads it depends on, and a mutation
announces what it changes. The announcement begins after the change, and whatever listeners do, it
gets to the topic before the mutation is over (`walk_change_announced`).
-/

namespace LivePath

theorem Graph.exists_dependency_of_trail_ne (g : Graph Empty) (o : ObjectId) (change : Mutation)
    {a : Accessor} {root : Value} (h : (g.mutate o change).state.trail a root ≠ g.trail a root) :
    ∃ d ∈ (g.trail a root).dependencies, d.target = o ∧
      ∃ t ∈ d.topics, t ∈ (g.mutate o change).topics := by
  by_contra hno
  exact h (g.trail_mutate o change fun d hd ho t ht hm => hno ⟨d, hd, ho, t, ht, hm⟩)

namespace Machine
variable {F : Type} [Foreign F] {m m' : Machine F}

/-- An object was mutated, and its announcement begins. -/
def mutated (m : Machine F) (o : ObjectId) (change : Mutation) : Machine F :=
  { m with world := (m.world.mutate o change).world }.notify (m.world.mutate o change).notice

theorem notify_edit {on : String} {e : Edit} {o : ObjectId} {change : Mutation} {w : World F}
    (h : m.world.mutationOf on e = .ok (o, change, w)) :
    (m.perform (.act (.edit on e))).1.notify (m.perform (.act (.edit on e))).2.2 =
      { m with world := w }.mutated o change := by
  have he : effectOf m.world (.edit on e) = .ok (w.mutate o change) := by
    rw [effectOf, World.edit, h]; rfl
  simp only [perform, act, he]
  rfl

theorem exists_delivery_of_mutated {o : ObjectId} {change : Mutation} {t : Topic}
    (ht : t ∈ (m.world.graph.mutate o change).topics) (hl : (m.mutated o change).Leads m')
    (hs : m'.stack = m.stack) :
    ∃ k, (m.mutated o change).Leads k ∧ k.Delivers o t ∧ k.Leads m' := by
  have hstack : (m.mutated o change).stack = [] ++
      .announce o (m.world.graph.mutate o change).topics :: m.stack := rfl
  exact exists_delivery hl hstack ht hs

/--
The dependencies of a walk are complete. If a mutation makes a difference to a walk, be it to its
outcome or to its dependencies, then it announces, after the change, a topic of an object that the
walk depended on for this topic before the change. The mutation comes to an end, and whatever
listeners do meanwhile, no run ends it without having delivered the topic to the observers that are
registered for it then.
-/
theorem walk_change_announced (m : Machine Empty) (o : ObjectId) (change : Mutation) (a : Accessor)
    (root : Value)
    (h : ((m.mutated o change).world.graph.walk a root).1.outcome ≠
      (m.world.graph.walk a root).1.outcome ∨
      ((m.mutated o change).world.graph.walk a root).1.dependencies ≠
      (m.world.graph.walk a root).1.dependencies) :
    ∃ d ∈ (m.world.graph.walk a root).1.dependencies, ∃ t ∈ d.topics,
      d.target = o ∧ t ∈ (m.world.graph.mutate o change).topics ∧
      (∃ n, (next^[n] (m.mutated o change)).stack = m.stack) ∧
      ∀ m', (m.mutated o change).Leads m' → m'.stack = m.stack →
        ∃ k, (m.mutated o change).Leads k ∧ k.Delivers d.target t ∧ k.Leads m' := by
  have hne : (m.world.graph.mutate o change).state.trail a root ≠ m.world.graph.trail a root := by
    intro he
    have hw : ((m.mutated o change).world.graph.walk a root).1 = (m.world.graph.walk a root).1 := he
    rw [hw] at h
    exact h.elim (fun hn => hn rfl) fun hn => hn rfl
  obtain ⟨d, hd, rfl, t, ht, hm⟩ := m.world.graph.exists_dependency_of_trail_ne o change hne
  have hsuf : m.stack <:+ (m.mutated d.target change).stack :=
    suffix_notify { m with world := (m.world.mutate d.target change).world } _
  refine ⟨d, hd, t, ht, rfl, hm, exists_stack_iterate_next hsuf, fun m' hl hs => ?_⟩
  exact exists_delivery_of_mutated hm hl hs

/-- An assignment to the attribute that the tracker of `tracking` looks at. -/
theorem walk_change_announced_tracking :
    let a := Accessor.ofPath ⟨[⟨.attr "name", "name", 0⟩]⟩
    let m := tracking.mutated 0 (.fields (.assign [("name", .bool false)]))
    (m.world.graph.walk a (.model 0)).1.outcome ≠
      (tracking.world.graph.walk a (.model 0)).1.outcome ∧
      ∀ m', m.Leads m' → m'.stack = [] → ∃ k, m.Leads k ∧ k.Delivers 0 (.change "name") ∧
      k.Leads m' := by
  intro a m
  have hne : (m.world.graph.walk a (.model 0)).1.outcome ≠
      (tracking.world.graph.walk a (.model 0)).1.outcome := by
    intro h
    have : (Except.ok (some (.bool false)) : Outcome) = .ok (some (.bool true)) := h
    cases this
  obtain ⟨d, hd, t, ht, ho, -, -, hall⟩ :=
    walk_change_announced tracking 0 (.fields (.assign [("name", .bool false)])) a
      (.model 0) (.inl hne)
  obtain rfl : d = .field 0 "name" := List.mem_singleton.1 hd
  obtain rfl : t = .change "name" := List.mem_singleton.1 ht
  exact ⟨hne, hall⟩

end Machine
end LivePath
