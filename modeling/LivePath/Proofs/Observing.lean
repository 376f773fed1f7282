import LivePath.Proofs.Hooks
import LivePath.Proofs.Reading
import LivePath.Tracker.Basic

/-!
# Observing a chain

All that a tracker does to a graph is to read it, to observe it for itself and to take its own hooks
back. A pass takes back the hooks of all records, reads, observes what the walk depends on, and
reads again (`exists_pass`). A binding that fails takes back what it observed (`exists_bind_error`).
-/

namespace LivePath

def Walk.pairs (w : Walk) : List (ObjectId × Topic) :=
  w.dependencies.flatMap Dependency.pairs

namespace Graph
variable {F : Type} [Foreign F] (g : Graph F) (a : Accessor) (root : Value) (observer : Observer)

theorem hooksOf_subscribeReached :
    hooksOf (g.subscribeReached a root observer).2.1 =
      ((g.walk a root).2.observeAll observer (g.walk a root).1.pairs).1 :=
  congrArg Prod.fst (attachAll_eq observer (g.walk a root).1.dependencies)

theorem graph_subscribeReached :
    (g.subscribeReached a root observer).2.2 =
      ((g.walk a root).2.observeAll observer (g.walk a root).1.pairs).2 :=
  congrArg Prod.snd (attachAll_eq observer (g.walk a root).1.dependencies)

theorem topics_subscribeReached :
    (g.subscribeReached a root observer).2.1.map (fun r => (r.target, r.topics)) =
      (g.walk a root).1.dependencies.map fun d => (d.target, d.topics) :=
  topics_attachAll ..

variable {g a root observer}

theorem exists_subscribe_ok {rs : List Record} {g' : Graph F}
    (h : g.subscribe a root observer = (.ok rs, g')) :
    g' = ((g.walk a root).2.observeAll observer (g.walk a root).1.pairs).2 ∧
      hooksOf rs = ((g.walk a root).2.observeAll observer (g.walk a root).1.pairs).1 ∧
      rs.map (fun r => (r.target, r.topics)) = (g.walk a root).1.dependencies.map fun d =>
        (d.target, d.topics) := by
  have hg := graph_subscribeReached g a root observer
  have hh := hooksOf_subscribeReached g a root observer
  have ht := topics_subscribeReached g a root observer
  rw [subscribe] at h
  rcases hs : g.subscribeReached a root observer with ⟨outcome, records, g₁⟩
  rw [hs] at h hg hh ht
  cases outcome with
  | ok v => cases h; exact ⟨hg, hh, ht⟩
  | error e => cases h

theorem exists_subscribe_error {e : AccessError} {g' : Graph F}
    (h : g.subscribe a root observer = (.error e, g')) :
    g' = ((g.walk a root).2.observeAll observer (g.walk a root).1.pairs).2.unobserveAll
      (((g.walk a root).2.observeAll observer (g.walk a root).1.pairs).1.map Hook.address) := by
  have hg := graph_subscribeReached g a root observer
  have hh := hooksOf_subscribeReached g a root observer
  rw [subscribe] at h
  rcases hs : g.subscribeReached a root observer with ⟨outcome, records, g₁⟩
  rw [hs] at h hg hh
  cases outcome with
  | ok v => cases h
  | error e' =>
    have hd : g' = (g₁.detachAll records).2 := (congrArg Prod.snd h).symm
    rw [hd, detachAll_eq, ← hg, ← hh]

end Graph

namespace Tracker
variable {F : Type} [Foreign F] {id : TrackerId} {a : Accessor} {root : Value} {g g' : Graph F}

theorem exists_bind_ok {t : Tracker} {es : List LogEntry}
    (h : bind id a root g = (.ok (t, es), g')) :
    ∃ g₁ g₂ w, g.get a root = (.ok t.last, g₁) ∧ g₁.walk a root = (w, g₂) ∧
      t = { root, accessor := a, last := t.last, records := t.records } ∧
      t.records.map (fun r => (r.target, r.topics)) =
        w.dependencies.map (fun d => (d.target, d.topics)) ∧
      hooksOf t.records = (g₂.observeAll (.tracker id) w.pairs).1 ∧
      g' = (g₂.observeAll (.tracker id) w.pairs).2 ∧ ∀ e ∈ es, e.level ≠ .error := by
  rw [bind] at h
  rcases hget : g.get a root with ⟨outcome, g₁⟩
  rw [hget] at h
  cases outcome with
  | error e => cases h
  | ok last =>
    simp only at h
    rcases hsub : g₁.subscribe a root (.tracker id) with ⟨result, g₃⟩
    rw [hsub] at h
    cases result with
    | error e => cases h
    | ok records =>
      cases h
      obtain ⟨hg, hh, ht⟩ := Graph.exists_subscribe_ok hsub
      exact ⟨g₁, _, _, rfl, rfl, rfl, ht, hh, hg, fun e he => by
        rw [List.mem_singleton.1 he]; simp [log]⟩

theorem exists_bind_error {e : AccessError} (h : bind id a root g = (.error e, g')) :
    ∃ g₁, g.ReadTo g₁ ∧ ∃ ps, g' = (g₁.observeAll (.tracker id) ps).2.unobserveAll
      ((g₁.observeAll (.tracker id) ps).1.map Hook.address) := by
  rw [bind] at h
  rcases hget : g.get a root with ⟨outcome, g₁⟩
  have hread : g.ReadTo g₁ := by have := g.readTo_get a root; rwa [hget] at this
  rw [hget] at h
  cases outcome with
  | error e' => cases h; exact ⟨g', hread, [], rfl⟩
  | ok last =>
    simp only at h
    rcases hsub : g₁.subscribe a root (.tracker id) with ⟨result, g₃⟩
    rw [hsub] at h
    cases result with
    | error e' =>
      cases h; exact ⟨_, hread.trans (g₁.readTo_walk a root), _, Graph.exists_subscribe_error hsub⟩
    | ok records => cases h

/-- A pass takes the hooks back, reads, observes, and reads again. -/
theorem exists_pass (id : TrackerId) (t : Tracker) (g : Graph F) :
    ∃ g₁ ps, (g.unobserveAll ((hooksOf t.records).map Hook.address)).ReadTo g₁ ∧
      hooksOf (t.pass id g).1.tracker.records = (g₁.observeAll (.tracker id) ps).1 ∧
      (g₁.observeAll (.tracker id) ps).2.ReadTo (t.pass id g).1.graph := by
  have hd := Graph.detachAll_eq (g := g) t.records
  have hg := Graph.graph_subscribeReached (g.detachAll t.records).2 t.accessor t.root (.tracker id)
  have hh := Graph.hooksOf_subscribeReached (g.detachAll t.records).2 t.accessor
    t.root (.tracker id)
  have hread := Graph.readTo_walk (g.detachAll t.records).2 t.accessor t.root
  rw [hd] at hread
  refine ⟨_, ((g.detachAll t.records).2.walk t.accessor t.root).1.pairs, hread, ?_, ?_⟩
  · rw [← hd, ← hh]; simp only [pass, refresh, rebind]; split <;> rfl
  · rw [← hd, ← hg]; simp only [pass, refresh, rebind, verify]
    split <;> exact (Graph.readTo_walk ..).trans (Graph.readTo_get ..)

theorem tracker_pass (id : TrackerId) (t : Tracker) (g : Graph F) :
    (t.pass id g).1.tracker = { t with
      phase := .rebinding, dirty := false, records := (t.pass id g).1.tracker.records
      last := (t.pass id g).1.tracker.last } := by
  simp only [pass, refresh, rebind]; split <;> rfl

theorem root_pass (id : TrackerId) (t : Tracker) (g : Graph F) :
    (t.pass id g).1.tracker.root = t.root := by
  rw [tracker_pass]

theorem handles_pass (id : TrackerId) (t : Tracker) (g : Graph F) :
    (t.pass id g).1.tracker.handles = t.handles := by
  rw [tracker_pass]

omit [Foreign F] in
theorem dispose_of_not_disposed {t : Tracker} (h : t.phase ≠ .disposed) (g : Graph F) :
    (t.dispose g).tracker =
      { t with phase := .disposed, records := [], listeners := t.listeners.clear } ∧
      (t.dispose g).graph = g.unobserveAll ((hooksOf t.records).map Hook.address) := by
  have : t.isDisposed = false := by simpa [isDisposed] using h
  simp only [dispose, this, Bool.false_eq_true, if_false, Graph.detachAll_eq, and_self]

omit [Foreign F] in
theorem dispose_of_disposed {t : Tracker} (h : t.phase = .disposed) (g : Graph F) :
    (t.dispose g).tracker = t ∧ (t.dispose g).graph = g := by
  simp [dispose, isDisposed, h]

omit [Foreign F] in
theorem level_dispose (t : Tracker) (g : Graph F) : ∀ e ∈ (t.dispose g).log, e.level ≠ .error := by
  unfold dispose
  split <;> simp [log]

end Tracker
end LivePath
