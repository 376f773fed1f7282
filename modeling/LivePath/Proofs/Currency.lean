import LivePath.Proofs.ErrorLog
import LivePath.Proofs.HookExactness

/-!
# No update is lost

A tracker can be behind what its path leads to only while something is left to be done about it: it
is dirty, so that its pass will be followed by another, or a notification is on its way to one of
its hooks (`World.Attends`). The notification can not get lost: a hook keeps its key until the next
pass of its tracker, which makes the tracker current. This is kept by every turn, whatever listeners
do in between, and at rest nothing is left to be done (`current_at_rest`, `observed_at_rest`).
-/

namespace LivePath

/-- The frame will notify a tracker through one of its hooks. -/
def Frame.Promises {F : Type} (id : TrackerId) (k : Hook) : Frame F → Prop
  | announce o topics => o = k.target ∧ k.topic ∈ topics
  | topic o _ pending => o = k.target ∧ ∃ r ∈ pending, r.key = k.key ∧ r.listener = .tracker id
  | _ => False

theorem Frame.Promises.pending {F : Type} {i : TrackerId} {k : Hook} {o : ObjectId} {t : Topic}
    {r : Registration Topic Observer} {pending : List (Registration Topic Observer)}
    (h : (topic o t (r :: pending) : Frame F).Promises i k)
    (hr : o = k.target → r.key = k.key → r.listener ≠ .tracker i) :
    (topic o t pending : Frame F).Promises i k := by
  obtain ⟨ho, r', hm, hk, hl⟩ := h
  rcases List.mem_cons.1 hm with rfl | hm
  · exact absurd hl (hr ho hk)
  · exact ⟨ho, r', hm, hk, hl⟩

theorem Frame.Spent.not_promises {F : Type} {frame : Frame F} (h : frame.Spent)
    (i : TrackerId) (k : Hook) : ¬ frame.Promises i k := by
  cases frame with
  | announce o topics => rintro ⟨-, hm⟩; rw [show topics = [] from h] at hm; cases hm
  | topic o t pending => rintro ⟨-, r, hm, -⟩; rw [show pending = [] from h] at hm; cases hm
  | _ => exact id

namespace World
variable {w w' : World Empty} {stack stack' : List (Frame Empty)} {id : TrackerId}

def Promised (w : World Empty) (stack : List (Frame Empty)) (id : TrackerId) : Prop :=
  ∃ k ∈ w.trackers.hooks id, ∃ frame ∈ stack, frame.Promises id k

/-- Nothing that concerns the tracker is forgotten. -/
structure Attends (w : World Empty) (stack : List (Frame Empty)) (id : TrackerId) : Prop where
  busy : (w.trackers.get id).phase = .rebinding → .handling id ∈ stack
  clean : (w.trackers.get id).phase = .bound → (w.trackers.get id).dirty = false
  current : (w.trackers.get id).handles ≠ 0 → (w.trackers.get id).phase ≠ .disposed →
    (w.trackers.get id).Current w.graph ∨ (w.trackers.get id).dirty = true ∨ w.Promised stack id

namespace Attends

theorem of_disposed (h : (w.trackers.get id).phase = .disposed) : w.Attends stack id :=
  ⟨fun hp => (by rw [h] at hp; cases hp), fun hp => (by rw [h] at hp; cases hp),
    fun _ hp => absurd h hp⟩

theorem of_current {t : Tracker} (ht : w.trackers.get id = t) (hc : t.Current w.graph)
    (hd : t.dirty = false) (hb : t.phase = .rebinding → .handling id ∈ stack) :
    w.Attends stack id := by
  subst ht
  exact ⟨hb, fun _ => hd, fun _ _ => .inl hc⟩

theorem congr (h : w.Attends stack id) (ht : w'.trackers.get id = w.trackers.get id)
    (ho : w'.graph.objects = w.graph.objects) (ha : w'.graph.arrays = w.graph.arrays)
    (hbusy : .handling id ∈ stack → .handling id ∈ stack')
    (hp : ∀ k ∈ w.trackers.hooks id, (∃ frame ∈ stack, frame.Promises id k) →
      ∃ frame ∈ stack', frame.Promises id k) :
    w'.Attends stack' id := by
  refine ⟨fun hr => hbusy (h.busy (ht ▸ hr)), fun hb => ht ▸ h.clean (ht ▸ hb), fun hh hd => ?_⟩
  rw [ht] at hh hd ⊢
  rcases h.current hh hd with hc | hdirty | ⟨k, hk, hf⟩
  · refine .inl ⟨?_, fun v hv => hc.last v ?_⟩
    · rw [Tracker.trail, Graph.trail_of_eq ho ha]; exact hc.observes
    · rw [Tracker.trail, Graph.trail_of_eq ho ha] at hv; exact hv
  · exact .inr (.inl hdirty)
  · refine .inr (.inr ⟨k, ?_, hp k hk hf⟩)
    rw [Table.hooks, ht]; exact hk

theorem mono (h : w.Attends stack id) (hs : stack ⊆ stack') : w.Attends stack' id :=
  h.congr rfl rfl rfl (@hs _) fun _ _ ⟨frame, hf, hp⟩ => ⟨frame, hs hf, hp⟩

end Attends

theorem Attends.extends (h : w.Attends stack id) (hc : w.Closed) (he : w.graph.Extends w'.graph)
    (ht : ∃ ls n, w'.trackers.get id = { w.trackers.get id with listeners := ls, handles := n } ∧
      (n ≠ 0 → (w.trackers.get id).handles ≠ 0)) : w'.Attends stack id := by
  obtain ⟨ls, n, ht, hn⟩ := ht
  refine ⟨fun hr => h.busy (by rw [ht] at hr; exact hr), fun hb => ?_, fun hh hd => ?_⟩
  · rw [ht] at hb ⊢; exact h.clean hb
  · rw [ht] at hh hd ⊢
    rcases h.current (hn hh) hd with hcur | hdirty | ⟨k, hk, hf⟩
    · have htrail : (w.trackers.get id).trail w'.graph = (w.trackers.get id).trail w.graph :=
        Graph.trail_extends hc.graph (hc.roots id) he
      exact .inl ⟨htrail ▸ hcur.observes, fun v hv => hcur.last v (htrail ▸ hv)⟩
    · exact .inr (.inl hdirty)
    · refine .inr (.inr ⟨k, ?_, hf⟩)
      rw [Table.hooks, ht]; exact hk

theorem exists_get_set {ts : Table Tracker} {i : TrackerId} {ls : Registry Unit ScriptId} {n : Nat}
    (hn : n ≠ 0 → (ts.get i).handles ≠ 0) (j : TrackerId) :
    ∃ ls' n', (ts.set i { ts.get i with listeners := ls, handles := n }).get j =
      { ts.get j with listeners := ls', handles := n' } ∧ (n' ≠ 0 → (ts.get j).handles ≠ 0) := by
  rw [Table.get_set]
  split
  · next hj => subst hj; exact ⟨ls, n, rfl, hn⟩
  · exact ⟨_, _, rfl, id⟩

theorem Move.attends (hm : Move w w') (hc : w.Closed) (ho : w.trackers.Owned w.names.trackers)
    (h : ∀ i, w.Attends stack i) (i : TrackerId) : w'.Attends stack i := by
  have he := hm.extends
  cases hm with
  | bind name hb hr =>
    by_cases hi : i = w.trackers.next
    · obtain ⟨hcur, hbound, hclean⟩ := Tracker.current_bind hb
      rw [hi]
      exact .of_current (Table.get_push_next ..) hcur hclean
        (fun hp => nomatch hbound.symm.trans hp)
    · exact (h i).extends hc he ⟨_, _, Table.get_push_ne _ hi _, id⟩
  | clone name hid =>
    obtain ⟨_, hm⟩ := hid
    exact (h i).extends hc he (exists_get_set (fun _ => ho.handles_ne_zero hm) i)
  | drop hid => exact (h i).extends hc he (exists_get_set (fun hn h0 => hn (by rw [h0])) i)
  | listeners hid hf => exact (h i).extends hc he (exists_get_set id i)
  | @dispose j hid =>
    by_cases hi : i = j
    · refine .of_disposed ?_
      rw [hi]; exact (congrArg Tracker.phase (Table.get_set_self ..)).trans
        (Tracker.phase_dispose ..)
    · exact (h i).extends hc he ⟨_, _, Table.get_set_ne _ hi _, id⟩
  | _ => exact (h i).extends hc he ⟨_, _, rfl, id⟩

theorem Moves.attends (hm : Moves w w') (hc : w.Closed) (ho : w.trackers.Owned w.names.trackers)
    (h : ∀ i, w.Attends stack i) : ∀ i, w'.Attends stack i := by
  induction hm with
  | refl => exact h
  | tail hms hm ih => exact hm.attends (Moves.closed hms hc) (Moves.owned hms ho) ih

/-- A mutation either does not matter to a tracker, or is announced to one of its hooks. -/
theorem Attends.mutate (h : w.Attends stack id) (o : ObjectId) (m : Mutation) :
    Attends { w with graph := (w.graph.mutate o m).state }
      (.announce o (w.graph.mutate o m).topics :: stack) id := by
  refine ⟨fun hr => List.mem_cons_of_mem _ (h.busy hr), h.clean, fun hh hd => ?_⟩
  rcases h.current hh hd with hcur | hdirty | ⟨k, hk, frame, hf, hp⟩
  · by_cases hdep : ∃ d ∈ ((w.trackers.get id).trail w.graph).dependencies, d.target = o ∧
        ∃ t ∈ d.topics, t ∈ (w.graph.mutate o m).topics
    · obtain ⟨d, hmem, rfl, t, ht, hm⟩ := hdep
      obtain ⟨k, hk, htarget, htopic⟩ := hcur.exists_hook hmem ht
      exact .inr (.inr ⟨k, hk, _, List.mem_cons_self .., htarget.symm, htopic ▸ hm⟩)
    · have htrail : (w.trackers.get id).trail (w.graph.mutate o m).state =
          (w.trackers.get id).trail w.graph :=
        Graph.trail_mutate _ o m fun d hd ho t ht hm => hdep ⟨d, hd, ho, t, ht, hm⟩
      exact .inl ⟨htrail ▸ hcur.observes, fun v hv => hcur.last v (htrail ▸ hv)⟩
  · exact .inr (.inl hdirty)
  · exact .inr (.inr ⟨k, hk, frame, List.mem_cons_of_mem _ hf, hp⟩)

theorem attends_pass {id : TrackerId} {i : TrackerId} (h : i ≠ id → w.Attends stack i)
    (hh : .handling id ∈ stack) :
    (w.retrack id ((w.trackers.get id).pass id w.graph).1).Attends stack i := by
  by_cases hi : i = id
  · rw [hi]
    refine .of_current (Table.get_set_self ..) (Tracker.current_pass ..) ?_ fun _ => hh
    rw [Tracker.tracker_pass]
  · obtain ⟨ho, ha⟩ := Tracker.graph_pass (g := w.graph) id (w.trackers.get id)
    exact (h hi).congr (Table.get_set_ne _ hi _) ho ha (fun hm => hm) fun _ _ hp => hp

theorem Attends.replace {frame : Frame Empty} (h : w.Attends (frame :: stack) id)
    (hn : frame ≠ .handling id) (hs : stack ⊆ stack')
    (hp : ∀ k ∈ w.trackers.hooks id, frame.Promises id k →
      ∃ frame' ∈ stack', frame'.Promises id k) :
    w.Attends stack' id := by
  refine h.congr rfl rfl rfl (fun hm => ?_) fun k hk ⟨f, hf, hpf⟩ => ?_
  · exact hs ((List.mem_cons.1 hm).resolve_left (Ne.symm hn))
  · rcases List.mem_cons.1 hf with rfl | hf
    · exact hp k hk hpf
    · exact ⟨f, hs hf, hpf⟩

theorem Attends.drop {frame : Frame Empty} (h : w.Attends (frame :: stack) id)
    (hn : frame ≠ .handling id) (hp : ∀ k, ¬ frame.Promises id k) (hs : stack ⊆ stack') :
    w.Attends stack' id :=
  h.replace hn hs fun k _ hk => absurd hk (hp k)

theorem Attends.delivered {o : ObjectId} {t : Topic} {r : Registration Topic Observer}
    {pending : List (Registration Topic Observer)}
    (h : w.Attends (.topic o t (r :: pending) :: stack) id)
    (hr : ∀ k ∈ w.trackers.hooks id, o = k.target → r.key = k.key → r.listener ≠ .tracker id) :
    w.Attends (.topic o t pending :: stack) id := by
  refine h.replace (by simp) (List.subset_cons_self ..) fun k hk hp => ?_
  exact ⟨_, List.mem_cons_self .., hp.pending (hr k hk)⟩

theorem attends_modifyTracker_ne {i : TrackerId} (h : w.Attends stack i) (hi : i ≠ id)
    (f : Tracker → Tracker) :
    (w.modifyTracker id f).Attends stack i :=
  h.congr (Table.get_set_ne _ hi _) rfl rfl (fun hm => hm) fun _ _ hp => hp

/-- A tracker that is marked in the middle of a pass makes another one. -/
theorem attends_mark (hp : (w.trackers.get id).phase = .rebinding) (hh : .handling id ∈ stack) :
    (w.modifyTracker id fun t => { t with dirty := true }).Attends stack id := by
  have hget : (w.modifyTracker id fun t => { t with dirty := true }).trackers.get id =
      { w.trackers.get id with dirty := true } := Table.get_set_self ..
  refine ⟨fun _ => hh, fun hb => ?_, fun _ _ => .inr (.inl ?_)⟩
  · cases hp.symm.trans ((congrArg Tracker.phase hget).symm.trans hb)
  · exact congrArg Tracker.dirty hget

theorem Attends.settle (h : w.Attends (.handling id :: stack) id)
    (hp : (w.trackers.get id).phase ≠ .disposed) (hd : (w.trackers.get id).dirty = false) :
    (w.modifyTracker id fun t => { t with phase := .bound }).Attends stack id := by
  have hget : (w.modifyTracker id fun t => { t with phase := .bound }).trackers.get id =
      { w.trackers.get id with phase := .bound } := Table.get_set_self ..
  refine ⟨fun hr => ?_, fun _ => (congrArg Tracker.dirty hget).trans hd, fun hn _ => ?_⟩
  · cases (congrArg Tracker.phase hget).symm.trans hr
  · have hhandles : (w.trackers.get id).handles ≠ 0 :=
      fun h0 => hn ((congrArg Tracker.handles hget).trans h0)
    rcases h.current hhandles hp with hcur | hdirty | ⟨k, hk, f, hf, hpf⟩
    · left
      rw [hget]
      exact ⟨hcur.observes, hcur.last⟩
    · cases hd.symm.trans hdirty
    · have hne : f ≠ .handling id := by rintro rfl; exact hpf
      refine .inr (.inr ⟨k, ?_, f, (List.mem_cons.1 hf).resolve_left hne, hpf⟩)
      rw [Table.hooks, hget]; exact hk

end World

namespace Machine
variable {m m' : Machine Empty}

theorem subset_stack_notify (m : Machine Empty) (notice : Notice) :
    m.stack ⊆ (m.notify notice).stack := by
  cases notice with
  | silent => exact List.Subset.refl _
  | topics => exact List.subset_cons_self ..
  | text => exact List.subset_cons_self ..

theorem attends_notify {w : World Empty} {notice : Notice} (hd : w.Does m.world notice)
    (hc : w.Closed) (ho : w.trackers.Owned w.names.trackers) (h : ∀ i, w.Attends m.stack i)
    (i : TrackerId) :
    (m.notify notice).world.Attends (m.notify notice).stack i := by
  rw [world_notify]
  generalize hw : m.world = w' at hd
  cases hd with
  | moves hm => exact (World.Moves.attends hm hc ho h i).mono (m.subset_stack_notify notice)
  | mutates hm o hv => exact (World.Moves.attends hm hc ho h i).mutate o _

theorem attends_call {frames : List (Frame Empty)} {i : TrackerId} {id : ScriptId}
    {event : String → Event} (h : m.world.Attends frames i) (hs : frames ⊆ m.stack) :
    (m.call id event).world.Attends (m.call id event).stack i :=
  (h.mono (List.subset_cons_of_subset _ hs)).congr rfl rfl rfl (fun hm => hm) fun _ _ hp => hp

theorem attends_pass {id : TrackerId} {frames : List (Frame Empty)} {i : TrackerId}
    (h : i ≠ id → m.world.Attends frames i) (hs : frames ⊆ m.stack) :
    (m.pass id).world.Attends (m.pass id).stack i := by
  rw [world_pass, stack_pass]
  refine World.attends_pass (fun hi => (h hi).mono ?_)
    (List.mem_append_right _ (List.mem_cons_self ..))
  exact List.subset_append_of_subset_right _ (List.subset_cons_of_subset _ hs)

theorem Turn.attends {frame : Frame Empty} (ht : m.Turn frame m') (hh : m.world.Hooked)
    (hc : m.world.Closed) (ho : m.world.trackers.Owned m.world.names.trackers)
    (h : ∀ i, m.world.Attends (frame :: m.stack) i) :
    ∀ i, m'.world.Attends m'.stack i := by
  intro i
  have hi := h i
  cases ht with
  | spent hs =>
    refine hi.drop ?_ (hs.not_promises i) (List.Subset.refl _)
    rintro rfl; exact hs
  | perform c cs =>
    refine attends_notify (m := ((m.perform c).1.push _).push _) (m.does_perform c) hc ho
      (fun j => ?_) i
    refine (h j).drop (by simp) (fun _ hp => hp) ?_
    rw [push, push, stack_perform]
    exact List.subset_cons_of_subset _ (List.subset_cons_self ..)
  | answer a =>
    have hrest : m.world.Attends m.stack i :=
      hi.drop (by simp) (fun _ hp => hp) (List.Subset.refl _)
    exact hrest.congr rfl rfl rfl (fun hm => hm) fun _ _ hp => hp
  | announce o t ts =>
    -- What the announcement promised is promised by its next topic, or by the topics behind that.
    refine hi.replace (by simp) (List.subset_cons_of_subset _ (List.subset_cons_self ..))
      fun k hk hp => ?_
    obtain ⟨rfl, hm⟩ := hp
    rcases List.mem_cons.1 hm with hm | hm
    · refine ⟨_, List.mem_cons_self .., rfl, k.registration (.tracker i), ?_, rfl, rfl⟩
      exact List.mem_filter.2 ⟨hh.graph.mem_entries hk, decide_eq_true hm⟩
    · exact ⟨_, List.mem_cons_of_mem _ (List.mem_cons_self ..), rfl, hm⟩
  | miss t pending hmiss =>
    -- A hook of the tracker is registered, so that it is not what was missed.
    refine hi.delivered fun k hk htarget hkey _ => ?_
    subst htarget
    have := Registry.contains_iff.2 (Registry.mem_keys (hh.graph.mem_entries hk))
    rw [hkey] at hmiss
    exact absurd (hmiss.symm.trans this) Bool.false_ne_true
  | hear pending hl =>
    refine attends_call (m := m.push _) ?_ (List.Subset.refl _)
    exact hi.delivered fun _ _ _ _ hl' => (by cases hl.symm.trans hl')
  | pass pending hl hp hn =>
    refine attends_pass (m := m.push _) (fun hne => ?_) (List.Subset.refl _)
    exact hi.delivered fun _ _ _ _ hl' => hne (Observer.tracker.inj (hl'.symm.trans hl))
  | @mark o t r pending id hl hp =>
    by_cases hid : i = id
    · subst hid
      -- The mark itself is the promise: the pass that is under way will be followed by another.
      have hmem : .handling i ∈ m.stack := (List.mem_cons.1 (hi.busy hp)).resolve_left (by simp)
      exact World.attends_mark hp (List.mem_cons_of_mem _ hmem)
    · refine World.attends_modifyTracker_ne ?_ hid _
      exact hi.delivered fun _ _ _ _ hl' => hid (Observer.tracker.inj (hl'.symm.trans hl))
  | @ignore o t r pending id hl hp =>
    by_cases hid : i = id
    · subst hid
      refine ⟨fun hr => ?_, hi.clean, fun hh hd => ?_⟩
      · exact List.mem_cons_of_mem _ ((List.mem_cons.1 (hi.busy hr)).resolve_left (by simp))
      · exact (hp.elim hd hh).elim
    · exact hi.delivered fun _ _ _ _ hl' => hid (Observer.tracker.inj (hl'.symm.trans hl))
  | skip ha =>
    cases ha with
    | text | change => exact hi.drop (by simp) (fun _ hp => hp) (List.subset_cons_self ..)
  | call ha =>
    refine attends_call (m := m.push _) ?_ (List.Subset.refl _)
    cases ha with
    | text | change => exact hi.drop (by simp) (fun _ hp => hp) (List.subset_cons_self ..)
  | again hp hd =>
    refine attends_pass (fun hne => ?_) (List.Subset.refl _)
    exact hi.drop (fun he => hne (Frame.handling.inj he).symm) (fun _ hp => hp) (List.Subset.refl _)
  | @settle id hp hd =>
    by_cases hid : i = id
    · subst hid
      exact hi.settle hp hd
    · refine World.attends_modifyTracker_ne ?_ hid _
      exact hi.drop (fun he => hid (Frame.handling.inj he).symm) (fun _ hp => hp)
        (List.Subset.refl _)
  | @finished id hp =>
    by_cases hid : i = id
    · exact .of_disposed (hid ▸ hp)
    · exact hi.drop (fun he => hid (Frame.handling.inj he).symm) (fun _ hp => hp)
        (List.Subset.refl _)

theorem Step.attends (hs : m.Step m') (hm : m.Reachable) (h : ∀ i, m.world.Attends m.stack i) :
    ∀ i, m'.world.Attends m'.stack i := by
  cases hs with
  | turn hn =>
    have hh := hm.hooked
    have hc := hm.closed
    have ho := hm.owned
    obtain ⟨frame, m₀, rfl, ht⟩ := exists_turn hn
    exact ht.attends hh hc ho h
  | command hs c =>
    refine attends_notify (w := m.afresh.world) (m.afresh.does_perform c) ?_ hm.owned fun i => ?_
    · exact hm.closed.of_extends hm.closed.graph (.refl _) rfl fun _ => rfl
    · rw [stack_perform]; exact (h i).congr rfl rfl rfl (fun hf => hf) fun _ _ hp => hp
  | @divert cs rest hs cs' =>
    intro i
    have hi := h i
    rw [hs] at hi
    exact hi.drop (by simp) (fun _ hp => hp) (List.subset_cons_self ..)

theorem Reachable.attends (hm : m.Reachable) : ∀ i, m.world.Attends m.stack i := by
  induction hm with
  | refl => exact fun i => .of_disposed rfl
  | tail hl hs ih => exact hs.attends hl ih

theorem settled_at_rest (hm : m.Reachable) (hs : m.stack = []) {id : TrackerId}
    (hh : (m.world.trackers.get id).handles ≠ 0)
    (hd : (m.world.trackers.get id).phase ≠ .disposed) :
    (m.world.trackers.get id).phase = .bound ∧ (m.world.trackers.get id).dirty = false ∧
      (m.world.trackers.get id).Current m.world.graph := by
  have h := hm.attends id
  rw [hs] at h
  have hbound : (m.world.trackers.get id).phase = .bound := by
    cases hp : (m.world.trackers.get id).phase with
    | bound => rfl
    | rebinding => exact absurd (h.busy hp) List.not_mem_nil
    | disposed => exact absurd hp hd
  have hclean := h.clean hbound
  refine ⟨hbound, hclean, ?_⟩
  rcases h.current hh hd with hc | hdirty | ⟨k, hk, frame, hf, -⟩
  · exact hc
  · exact nomatch hclean.symm.trans hdirty
  · exact absurd hf List.not_mem_nil

/--
No update is lost. Whenever a run comes to rest, whatever its listeners did, every tracker that has
a handle and was not disposed waits and is clean, and if its path can be walked, the value that it
remembers is the one that its path leads to, to the bit.
-/
theorem current_at_rest (hm : m.Reachable) (hs : m.stack = []) (id : TrackerId)
    (hh : (m.world.trackers.get id).handles ≠ 0)
    (hd : (m.world.trackers.get id).phase ≠ .disposed) :
    (m.world.trackers.get id).phase = .bound ∧ (m.world.trackers.get id).dirty = false ∧
      ∀ v, (m.world.graph.get (m.world.trackers.get id).accessor
          (m.world.trackers.get id).root).1 = .ok v →
        (m.world.trackers.get id).last = v := by
  obtain ⟨hbound, hclean, hc⟩ := settled_at_rest hm hs hh hd
  refine ⟨hbound, hclean, fun v hv => hc.last v ?_⟩
  rw [Graph.get_eq] at hv
  exact hv

/-- An assignment that the tracker of `tracking` follows. -/
theorem current_at_rest_tracking :
    let m := next^[6] (tracking.begin (.act (.edit "m" (.set "name" (.bool false)))))
    m.Reachable ∧ m.stack = [] ∧ (m.world.trackers.get 0).handles ≠ 0 ∧
      (m.world.trackers.get 0).phase ≠ .disposed ∧
      (m.world.trackers.get 0).phase = .bound ∧ (m.world.trackers.get 0).dirty = false ∧
      (m.world.trackers.get 0).last = some (.bool false) := by
  intro m
  have hm : m.Reachable := (reachable_tracking.begin rfl _).leads (leads_iterate_next _ 6)
  have hh : (m.world.trackers.get 0).handles ≠ 0 := by decide
  have hd : (m.world.trackers.get 0).phase ≠ .disposed := by decide
  obtain ⟨hb, hc, hl⟩ := current_at_rest hm rfl 0 hh hd
  exact ⟨hm, rfl, hh, hd, hb, hc, hl _ rfl⟩

/--
Observation is exact. Whenever a run comes to rest, the records of a tracker that has a handle and
was not disposed are, in order, about the dependencies that a walk of its path meets now, and no
other object carries a hook of it. Rebinding always leaves records that are about the dependencies,
and that they differ is never logged.
-/
theorem observed_at_rest (hm : m.Reachable) :
    (m.stack = [] → ∀ id, (m.world.trackers.get id).handles ≠ 0 →
      (m.world.trackers.get id).phase ≠ .disposed →
      let t := m.world.trackers.get id
      let met := (m.world.graph.walk t.accessor t.root).1.dependencies
      t.records.map (fun r => (r.target, r.topics)) = met.map (fun d => (d.target, d.topics)) ∧
      ∀ o, (∀ d ∈ met, d.target ≠ o) →
      ∀ r ∈ (m.world.graph.registries.get o).entries, r.listener ≠ .tracker id) ∧
    (∀ (id : TrackerId) (t : Tracker),
      let bound := t.rebind id m.world.graph
      bound.tracker.observes (bound.graph.walk t.accessor t.root).1.dependencies = true) ∧
    ∀ e, .logged e ∈ m.world.trace → ¬ e.IsMismatch := by
  refine ⟨fun hs id hh hd => ?_, fun id t => ?_, fun e he => (hm.explained e he).not_mismatch⟩
  · obtain ⟨-, -, hc⟩ := settled_at_rest hm hs hh hd
    have hobs := Tracker.observes_iff.1 hc.observes
    refine ⟨hobs, fun o hno r hr hl => ?_⟩
    obtain ⟨record, hrecord, hhook⟩ := List.mem_flatMap.1 (hm.hooked.graph.mem_hooks hr hl)
    obtain ⟨e, -, he⟩ := List.mem_map.1 hhook
    have hmem : (record.target, record.topics) ∈ (m.world.trackers.get id).records.map fun r =>
        (r.target, r.topics) :=
      List.mem_map.2 ⟨record, hrecord, rfl⟩
    rw [hobs] at hmem
    obtain ⟨d, hd, hde⟩ := List.mem_map.1 hmem
    exact hno d hd ((Prod.mk.inj hde).1.trans (congrArg Hook.target he))
  · have hr := Tracker.rebound_rebind id t m.world.graph
    have htrail : (t.rebind id m.world.graph).graph.trail t.accessor t.root =
        t.trail m.world.graph :=
      Graph.trail_of_eq hr.objects hr.arrays
    show Tracker.observes _
      ((t.rebind id m.world.graph).graph.trail t.accessor t.root).dependencies = true
    rw [htrail]; exact hr.observes

/-- The one record of the tracker of `tracking`. -/
theorem observed_at_rest_tracking :
    tracking.Reachable ∧ tracking.stack = [] ∧
      (tracking.world.trackers.get 0).records.map (fun r => (r.target, r.topics)) =
        [(0, [.change "name"])] ∧
      ∀ e, .logged e ∈ tracking.world.trace → ¬ e.IsMismatch := by
  obtain ⟨hrest, -, hlog⟩ := observed_at_rest reachable_tracking
  exact ⟨reachable_tracking, rfl, (hrest rfl 0 (by decide) (by decide)).1, hlog⟩

end Machine
end LivePath
