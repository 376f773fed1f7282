import LivePath.Proofs.Closure

/-!
# What a pass achieves

After a pass a tracker is current: it observes exactly what the walk of its path depends on, and
unless the walk fails it remembers what the path leads to (`current_pass`). The value is announced
if it is not strictly equal to the one remembered before (`passed_pass`). The comparison of records
and dependencies finds no difference, so the only errors that are ever logged are steps into a value
of the wrong kind (`LogEntry.Explained`).
-/

namespace LivePath

/-- An error entry tells of a walk that came to a value of the wrong kind. -/
def LogEntry.Explained (e : LogEntry) : Prop :=
  e.level = .error → ∃ (t : Tracker) (node : Node) (kind : Kind),
    e = t.log .error s!"-> {(AccessError.typeMismatch node kind).message}"

theorem Graph.subscribeReached_spec {g g' : Graph Empty} {a : Accessor} {root : Value}
    {observer : Observer} {outcome : Outcome} {records : List Record}
    (h : g.subscribeReached a root observer = (outcome, records, g')) :
    outcome = (g.trail a root).outcome ∧
      records.map (fun r => (r.target, r.topics)) =
        (g.trail a root).dependencies.map (fun d => (d.target, d.topics)) ∧
      g'.objects = g.objects ∧ g'.arrays = g.arrays := by
  have hg := graph_subscribeReached g a root observer
  have ht := topics_subscribeReached g a root observer
  have ho : (g.subscribeReached a root observer).1 = (g.walk a root).1.outcome := rfl
  rw [h] at hg ht ho
  rw [walk_eq] at hg ht ho
  exact ⟨ho, ht, by rw [show g' = _ from hg]; simp, by rw [show g' = _ from hg]; simp⟩

namespace Tracker
variable {g : Graph Empty}

def trail (t : Tracker) (g : Graph Empty) : Walk :=
  g.trail t.accessor t.root

/-- The records are about what the walk depends on, and what was found last is what is found now. -/
structure Current (t : Tracker) (g : Graph Empty) : Prop where
  observes : t.observes (t.trail g).dependencies = true
  last : ∀ v, (t.trail g).outcome = .ok v → t.last = v

theorem observes_iff {t : Tracker} {ds : List Dependency} :
    t.observes ds = true ↔ t.records.map (fun r => (r.target, r.topics)) = ds.map fun d =>
      (d.target, d.topics) := by
  simp [observes]

theorem Current.exists_hook {t : Tracker} (h : t.Current g) {d : Dependency}
    (hd : d ∈ (t.trail g).dependencies) {topic : Topic} (ht : topic ∈ d.topics) :
    ∃ k ∈ hooksOf t.records, k.target = d.target ∧ k.topic = topic := by
  have hm : (d.target, d.topics) ∈ t.records.map fun r => (r.target, r.topics) := by
    rw [observes_iff.1 h.observes]; exact List.mem_map.2 ⟨d, hd, rfl⟩
  obtain ⟨r, hr, he⟩ := List.mem_map.1 hm
  obtain ⟨htarget, htopics⟩ := Prod.mk.inj he
  rw [← htopics] at ht
  obtain ⟨e, he, rfl⟩ := List.mem_map.1 ht
  exact ⟨⟨r.target, e.1, e.2⟩, List.mem_flatMap.2 ⟨r, hr, List.mem_map.2 ⟨e, he, rfl⟩⟩, htarget,
    rfl⟩

theorem explained_failures (t : Tracker) (g : Graph Empty) :
    ∀ e ∈ t.failures (t.trail g).outcome, e.Explained := by
  intro e he _
  cases ho : (t.trail g).outcome with
  | ok v => rw [ho] at he; cases he
  | error error =>
    rw [ho] at he
    obtain ⟨node, kind, rfl⟩ := Graph.outcome_trail ho
    exact ⟨t, node, kind, List.mem_singleton.1 he⟩

theorem verify_of_observes {t : Tracker} (h : t.observes (t.trail g).dependencies = true) :
    (t.verify g).2 = g ∧ ∀ e ∈ (t.verify g).1, e.level ≠ .error := by
  simp only [verify, Graph.walk_eq]
  refine ⟨trivial, fun e he => ?_⟩
  rw [show t.observes (g.trail t.accessor t.root).dependencies = true from h, if_pos rfl,
    List.append_nil] at he
  cases ho : (g.trail t.accessor t.root).outcome with
  | ok v => rw [ho] at he; cases he
  | error error => rw [ho] at he; rw [List.mem_singleton.1 he]; simp [log]

structure Rebound (t : Tracker) (g : Graph Empty) (r : Tracked Empty) : Prop where
  tracker : r.tracker = { t with records := r.tracker.records }
  observes : r.tracker.observes (t.trail g).dependencies = true
  objects : r.graph.objects = g.objects
  arrays : r.graph.arrays = g.arrays
  log : ∀ e ∈ r.log, e.Explained

theorem rebound_rebind (id : TrackerId) (t : Tracker) (g : Graph Empty) :
    t.Rebound g (t.rebind id g) := by
  have hd := Graph.detachAll_eq (g := g) t.records
  unfold rebind
  rcases hr : g.detachAll t.records with ⟨released, g₁⟩
  rw [hr] at hd
  obtain ⟨hdo, hda⟩ : g₁.objects = g.objects ∧ g₁.arrays = g.arrays := by
    rw [show g₁ = _ from hd]; exact ⟨Graph.objects_unobserveAll _, Graph.arrays_unobserveAll _⟩
  rcases hs : g₁.subscribeReached t.accessor t.root (.tracker id) with ⟨outcome, records, g₂⟩
  obtain ⟨rfl, ht, hobj, harr⟩ := Graph.subscribeReached_spec hs
  rw [hdo] at hobj
  rw [hda] at harr
  have htrail : ∀ g' : Graph Empty, g'.objects = g.objects → g'.arrays = g.arrays →
      g'.trail t.accessor t.root = t.trail g := fun g' => Graph.trail_of_eq
  rw [htrail g₁ hdo hda] at ht hs
  have hobs : { t with records }.observes ({ t with records }.trail g₂).dependencies = true := by
    rw [trail, htrail g₂ hobj harr]; exact observes_iff.2 ht
  obtain ⟨hv, hlog⟩ := verify_of_observes hobs
  simp only [hs]
  refine ⟨rfl, observes_iff.2 ht, (congrArg Graph.objects hv).trans hobj,
    (congrArg Graph.arrays hv).trans harr, fun e he => ?_⟩
  rcases List.mem_append.1 he with he | he
  · exact explained_failures { t with records } g e he
  · rcases List.mem_cons.1 he with rfl | he
    · exact nofun
    · exact fun h => absurd h (hlog e he)

structure Passed (t : Tracker) (g : Graph Empty) (r : Tracked Empty)
    (announced : Option (Option Value)) : Prop where
  observes : r.tracker.observes (t.trail g).dependencies = true
  objects : r.graph.objects = g.objects
  arrays : r.graph.arrays = g.arrays
  log : ∀ e ∈ r.log, e.Explained
  /-- A value that is found is remembered, and announced if it is another one. -/
  found : ∀ v, (t.trail g).outcome = .ok v →
    r.tracker.last = v ∧ announced = if Value.sameOption t.last v then none else some v
  failed : ∀ e, (t.trail g).outcome = .error e → r.tracker.last = t.last ∧ announced = none

theorem passed_pass (id : TrackerId) (t : Tracker) (g : Graph Empty) :
    t.Passed g (t.pass id g).1 (t.pass id g).2 := by
  have hr := rebound_rebind id { t with phase := .rebinding, dirty := false } g
  unfold pass
  generalize { t with phase := .rebinding, dirty := false }.rebind id g = r at hr
  have ha : r.tracker.accessor = t.accessor := by rw [hr.tracker]
  have hroot : r.tracker.root = t.root := by rw [hr.tracker]
  have hlast : r.tracker.last = t.last := by rw [hr.tracker]
  have htrail : r.tracker.trail r.graph = t.trail g := by
    rw [trail, ha, hroot]; exact Graph.trail_of_eq hr.objects hr.arrays
  have hget : r.graph.get r.tracker.accessor r.tracker.root = ((t.trail g).outcome, r.graph) := by
    rw [Graph.get_eq, ← htrail]; rfl
  simp only [refresh, hget]
  cases ho : (t.trail g).outcome with
  | ok v =>
    refine ⟨hr.observes, hr.objects, hr.arrays, fun e he => ?_, fun v' hv => ?_, fun e he => ?_⟩
    · exact hr.log e (by simpa using he)
    · cases Except.ok.inj (ho.symm.trans hv); exact ⟨rfl, by rw [hlast]⟩
    · cases ho.symm.trans he
  | error error =>
    refine ⟨hr.observes, hr.objects, hr.arrays, fun e he => ?_, fun v hv => ?_,
      fun _ _ => ⟨hlast, rfl⟩⟩
    · rcases List.mem_append.1 he with he | he
      · exact hr.log e he
      · refine explained_failures r.tracker r.graph e ?_
        rw [htrail, ho]; exact he
    · cases ho.symm.trans hv

theorem current_pass (id : TrackerId) (t : Tracker) (g : Graph Empty) :
    (t.pass id g).1.tracker.Current (t.pass id g).1.graph := by
  have h := passed_pass id t g
  have htrail : (t.pass id g).1.tracker.trail (t.pass id g).1.graph = t.trail g := by
    rw [trail, tracker_pass]; exact Graph.trail_of_eq h.objects h.arrays
  exact ⟨htrail ▸ h.observes, fun v hv => (h.found v (htrail ▸ hv)).1⟩

theorem current_bind {id : TrackerId} {a : Accessor} {root : Value} {g' : Graph Empty} {t : Tracker}
    {es : List LogEntry} (h : bind id a root g = (.ok (t, es), g')) :
    t.Current g' ∧ t.phase = .bound ∧ t.dirty = false := by
  obtain ⟨hlast, ht, hobs, hobj, harr⟩ := exists_bind h
  have hroot : t.root = root := by rw [ht]
  have haccessor : t.accessor = a := by rw [ht]
  have htrail : t.trail g' = g.trail a root := by
    rw [trail, hroot, haccessor]; exact Graph.trail_of_eq hobj harr
  refine ⟨⟨htrail ▸ hobs, fun v hv => ?_⟩, by rw [ht], by rw [ht]⟩
  rw [htrail, hlast] at hv
  exact Except.ok.inj hv

end Tracker
end LivePath
