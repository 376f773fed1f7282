import LivePath.Proofs.HookExactness

/-!
# Registries along a run

Whatever a run does to the registry of an object, of a text dispatcher or of a tracker's change
listeners, it does by registering listeners and taking them back (`World.LeadsTo`). So what is known
of these operations, that keys never come back above all, is known of every two states of which one
follows the other.
-/

namespace LivePath
variable {F : Type}

namespace Graph
variable {g g' : Graph F}

theorem LeadsTo.of_registries (h : g'.registries = g.registries) : g.LeadsTo g' := by
  intro o
  rw [h]
  exact .refl _

variable [Foreign F]

theorem leadsTo_pass (id : TrackerId) (t : Tracker) (g : Graph F) :
    g.LeadsTo (t.pass id g).1.graph := by
  obtain ⟨g₁, ps, hr, -, hr'⟩ := Tracker.exists_pass id t g
  have hread := LeadsTo.of_registries hr.registries
  have hread' := LeadsTo.of_registries hr'.registries
  exact (((LeadsTo.unobserveAll g _).trans hread).trans (.observeAll g₁ _ ps)).trans hread'

omit [Foreign F] in
theorem leadsTo_dispose (t : Tracker) (g : Graph F) : g.LeadsTo (t.dispose g).graph := by
  by_cases hp : t.phase = .disposed
  · rw [(Tracker.dispose_of_disposed hp g).2]; exact .refl g
  · rw [(Tracker.dispose_of_not_disposed hp g).2]; exact .unobserveAll g _

theorem leadsTo_bind {id : TrackerId} {a : Accessor} {root : Value}
    {r : Except AccessError (Tracker × List LogEntry)} (h : Tracker.bind id a root g = (r, g')) :
    g.LeadsTo g' := by
  cases r with
  | error e =>
    obtain ⟨g₁, hr, ps, rfl⟩ := Tracker.exists_bind_error h
    exact ((LeadsTo.of_registries hr.registries).trans (.observeAll g₁ _ ps)).trans
      (.unobserveAll _ _)
  | ok r =>
    obtain ⟨g₁, g₂, w, hget, hwalk, -, -, -, rfl, -⟩ := Tracker.exists_bind_ok h
    have hread := g.readTo_get a root
    have hread' := g₁.readTo_walk a root
    rw [hget] at hread
    rw [hwalk] at hread'
    exact (LeadsTo.of_registries (hread.trans hread').registries).trans (.observeAll g₂ _ _)

end Graph

structure World.LeadsTo (w w' : World F) : Prop where
  objects : w.graph.LeadsTo w'.graph
  dispatchers : ∀ d, (w.dispatchers.get d).LeadsTo (w'.dispatchers.get d)
  trackers : w.trackers.Continues w'.trackers

namespace World
variable {w w' w'' : World F}

theorem LeadsTo.refl (w : World F) : w.LeadsTo w :=
  ⟨.refl _, fun _ => .refl _, .refl _⟩

theorem LeadsTo.trans (h : w.LeadsTo w') (h' : w'.LeadsTo w'') : w.LeadsTo w'' :=
  ⟨h.objects.trans h'.objects, fun d => (h.dispatchers d).trans (h'.dispatchers d),
    h.trackers.trans h'.trackers⟩

variable [Foreign F]

theorem Move.leadsTo_graph (h : Move w w') : w.graph.LeadsTo w'.graph := by
  cases h with
  | read h => exact .of_registries h.registries
  | subscribe => exact .observeAll w.graph _ _
  | giveUp => exact (Graph.LeadsTo.observeAll w.graph _ _).trans (.unobserveAll _ _)
  | unsubscribe => exact .unobserveAll w.graph _
  | bind name h => exact Graph.leadsTo_bind h
  | bindFailed h => exact Graph.leadsTo_bind h
  | dispose => exact Graph.leadsTo_dispose _ w.graph
  | _ => exact .of_registries rfl

theorem Move.leadsTo (h : Move w w') : w.LeadsTo w' := by
  refine ⟨h.leadsTo_graph, ?_, h.continues⟩
  cases h with
  | dispatchers h => exact h
  | _ => exact fun _ => .refl _

theorem Moves.leadsTo (h : Moves w w') : w.LeadsTo w' := by
  induction h with
  | refl => exact .refl w
  | tail _ h ih => exact ih.trans h.leadsTo

theorem Does.leadsTo {notice : Notice} (h : w.Does w' notice) : w.LeadsTo w' := by
  cases h with
  | moves h => exact Moves.leadsTo h
  | mutates h =>
    have h := Moves.leadsTo h
    exact ⟨h.objects.trans (.of_registries (registries_mutate ..)), h.dispatchers, h.trackers⟩

theorem leadsTo_pass (w : World F) (id : TrackerId) (hp : (w.trackers.get id).phase ≠ .disposed) :
    w.LeadsTo (w.retrack id ((w.trackers.get id).pass id w.graph).1) :=
  ⟨Graph.leadsTo_pass _ _ w.graph, fun _ => .refl _, .set (.pass _ _ hp)⟩

end World

namespace Machine
variable [Foreign F] {m m' : Machine F}

theorem Turn.leadsTo {frame : Frame F} (h : m.Turn frame m') : m.world.LeadsTo m'.world := by
  cases h with
  | perform c cs => rw [world_notify]; exact (m.does_perform c).leadsTo
  | pass _ _ hp => exact m.world.leadsTo_pass _ (by simp [hp])
  | again hp => exact m.world.leadsTo_pass _ hp
  | mark => exact ⟨.refl _, fun _ => .refl _, .set (.of_listeners rfl rfl Iff.rfl (.refl _))⟩
  | settle hp =>
    exact ⟨.refl _, fun _ => .refl _,
      .set (.of_listeners rfl rfl ⟨Phase.noConfusion, fun h => absurd h hp⟩ (.refl _))⟩
  | _ => exact ⟨.refl _, fun _ => .refl _, .refl _⟩

theorem Step.leadsTo (h : m.Step m') : m.world.LeadsTo m'.world := by
  cases h with
  | turn h =>
    obtain ⟨frame, m₀, rfl, ht⟩ := exists_turn h
    exact ht.leadsTo
  | command h c =>
    rw [begin, world_notify]
    have hd := (m.afresh.does_perform c).leadsTo
    exact ⟨hd.objects, hd.dispatchers, hd.trackers⟩
  | divert h => exact .refl _

theorem Leads.leadsTo (h : m.Leads m') : m.world.LeadsTo m'.world := by
  induction h with
  | refl => exact .refl _
  | tail _ h ih => exact ih.trans h.leadsTo

end Machine
end LivePath
