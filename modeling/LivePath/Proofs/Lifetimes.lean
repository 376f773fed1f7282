import LivePath.Proofs.Turns

/-!
# The lives of trackers

A tracker keeps its root and its accessor, a disposed one stays disposed, and once it is disposed
none of the change listeners that it had before is still there (`Tracker.Continues`). So a value
that is on its way to the listeners of a tracker reaches none of them any more once the tracker is
disposed (`Machine.Listening`). A tracker has as many handles as names, and without one it never
gets another (`Table.Owned`).
-/

namespace LivePath
variable {F : Type}

structure Tracker.Continues (t t' : Tracker) : Prop where
  root : t'.root = t.root
  accessor : t'.accessor = t.accessor
  disposed : t.phase = .disposed → t'.phase = .disposed
  listeners : t.listeners.LeadsTo t'.listeners
  /-- A listener that was once there is not there when the tracker is disposed. -/
  silent : t.listeners.WellFormed → ∀ k, t.listeners.Issued k →
  (t.phase = .disposed → k ∉ t.listeners.keys) →
    t'.phase = .disposed → k ∉ t'.listeners.keys

namespace Tracker
variable {t t' t'' : Tracker}

namespace Continues

theorem of_listeners (hr : t'.root = t.root) (ha : t'.accessor = t.accessor)
    (hp : t'.phase = .disposed ↔ t.phase = .disposed) (hl : t.listeners.LeadsTo t'.listeners) :
    t.Continues t' :=
  ⟨hr, ha, hp.2, hl, fun hw k hi hk hd => hl.gone hw k hi (hk (hp.1 hd))⟩

theorem refl (t : Tracker) : t.Continues t :=
  .of_listeners rfl rfl Iff.rfl (.refl _)

theorem trans (h : t.Continues t') (h' : t'.Continues t'') : t.Continues t'' where
  root := h'.root.trans h.root
  accessor := h'.accessor.trans h.accessor
  disposed := h'.disposed ∘ h.disposed
  listeners := h.listeners.trans h'.listeners
  silent hw k hi hk :=
    h'.silent (h.listeners.wellFormed hw) k (h.listeners.issued k hi) (h.silent hw k hi hk)

theorem pass [Foreign F] (id : TrackerId) (g : Graph F) (hp : t.phase ≠ .disposed) :
    t.Continues (t.pass id g).1.tracker := by
  rw [tracker_pass]
  exact .of_listeners rfl rfl ⟨nofun, fun h => absurd h hp⟩ (.refl _)

theorem dispose (g : Graph F) : t.Continues (t.dispose g).tracker := by
  by_cases hp : t.phase = .disposed
  · rw [(dispose_of_disposed hp g).1]; exact .refl t
  · rw [(dispose_of_not_disposed hp g).1]
    exact ⟨rfl, rfl, fun _ => rfl, .clear _,
      fun _ _ _ _ _ hm => by simp [Registry.keys, Registry.entries_clear] at hm⟩

end Continues

theorem handles_dispose (t : Tracker) (g : Graph F) :
    (t.dispose g).tracker.handles = t.handles := by
  unfold dispose
  split <;> rfl

theorem phase_dispose (t : Tracker) (g : Graph F) : (t.dispose g).tracker.phase = .disposed := by
  by_cases hp : t.phase = .disposed
  · rw [(dispose_of_disposed hp g).1]; exact hp
  · rw [(dispose_of_not_disposed hp g).1]

end Tracker

def Table.Keyed (ts : Table Tracker) : Prop :=
  ∀ id, (ts.get id).listeners.WellFormed

structure Table.Continues (ts ts' : Table Tracker) : Prop where
  next_le : ts.next ≤ ts'.next
  tracker : ∀ id < ts.next, (ts.get id).Continues (ts'.get id)
  listeners : ∀ id, (ts.get id).listeners.LeadsTo (ts'.get id).listeners

namespace Table.Continues
variable {ts ts' ts'' : Table Tracker}

theorem keyed (h : ts.Continues ts') (hk : ts.Keyed) : ts'.Keyed :=
  fun id => (h.listeners id).wellFormed (hk id)

theorem refl (ts : Table Tracker) : ts.Continues ts :=
  ⟨Nat.le_refl _, fun _ _ => .refl _, fun _ => .refl _⟩

theorem trans (h : ts.Continues ts') (h' : ts'.Continues ts'') : ts.Continues ts'' :=
  ⟨Nat.le_trans h.next_le h'.next_le,
    fun id hid => (h.tracker id hid).trans (h'.tracker id (Nat.lt_of_lt_of_le hid h.next_le)),
    fun id => (h.listeners id).trans (h'.listeners id)⟩

theorem set {id : TrackerId} {t : Tracker} (h : (ts.get id).Continues t) :
    ts.Continues (ts.set id t) := by
  refine ⟨ts.next_le_set id t, fun j _ => ?_, fun j => ?_⟩ <;> rw [get_set] <;> split
  · next hj => exact hj ▸ h
  · exact .refl _
  · next hj => exact hj ▸ h.listeners
  · exact .refl _

theorem push {t : Tracker} (h : t.listeners = {}) : ts.Continues (ts.push t) := by
  refine ⟨by simp, fun j hj => ?_, fun j => ?_⟩
  · rw [get_push_ne ts (Nat.ne_of_lt hj)]; exact .refl _
  · by_cases hj : j = ts.next
    · rw [hj, get_push_next, h, get_of_next_le ts (Nat.le_refl _)]; exact .refl _
    · rw [get_push_ne ts hj]; exact .refl _

end Table.Continues

theorem lt_next_of_phase {ts : Table Tracker} {id : TrackerId} (h : (ts.get id).phase ≠ .disposed) :
    id < ts.next := by
  refine Nat.lt_of_not_le fun hle => h ?_
  rw [Table.get_of_next_le ts hle]; rfl

/-! ### Handles -/

/-- Names are given to existing trackers, and each tracker has as many handles as names. -/
structure Table.Owned (ts : Table Tracker) (names : List (String × TrackerId)) : Prop where
  lt : ∀ e ∈ names, e.2 < ts.next
  count : ∀ id, (ts.get id).handles = names.countP (·.2 = id)

namespace Table.Owned
variable {ts : Table Tracker} {names : List (String × TrackerId)}

theorem handles_ne_zero (h : ts.Owned names) {name : String} {id : TrackerId}
    (hm : (name, id) ∈ names) :
    (ts.get id).handles ≠ 0 := by
  rw [h.count]
  exact Nat.ne_of_gt (List.countP_pos_iff.2 ⟨_, hm, by simp⟩)

theorem set (h : ts.Owned names) {id : TrackerId} {t : Tracker}
    (ht : t.handles = (ts.get id).handles) :
    (ts.set id t).Owned names := by
  refine ⟨fun e he => Nat.lt_of_lt_of_le (h.lt e he) (ts.next_le_set id t), fun j => ?_⟩
  rw [get_set]
  split
  · next hj => rw [ht, ← hj]; exact h.count j
  · exact h.count j

theorem push (h : ts.Owned names) {t : Tracker} (ht : t.handles = 1) (name : String) :
    (ts.push t).Owned ((name, ts.next) :: names) := by
  refine ⟨fun e he => ?_, fun j => ?_⟩
  · rw [next_push]
    rcases List.mem_cons.1 he with rfl | he
    · exact Nat.lt_succ_self _
    · exact Nat.lt_succ_of_lt (h.lt e he)
  · rw [List.countP_cons]
    by_cases hj : j = ts.next
    · have hnone : names.countP (·.2 = ts.next) = 0 :=
        List.countP_eq_zero.2 fun e he => by simpa using Nat.ne_of_lt (h.lt e he)
      rw [hj, get_push_next, ht, hnone]; simp
    · rw [get_push_ne ts hj, h.count, if_neg (by simpa using Ne.symm hj), Nat.add_zero]

theorem clone (h : ts.Owned names) {name : String} {id : TrackerId} (hm : (name, id) ∈ names)
    (other : String) :
    (ts.modify id fun t => { t with handles := t.handles + 1 }).Owned ((other, id) :: names) := by
  refine ⟨fun e he => Nat.lt_of_lt_of_le ?_ (ts.next_le_set id _), fun j => ?_⟩
  · rcases List.mem_cons.1 he with rfl | he
    · exact h.lt (name, id) hm
    · exact h.lt e he
  · rw [List.countP_cons, Table.modify, get_set]
    split
    · next hj => rw [hj, ← h.count]; simp
    · next hj => rw [if_neg (by simpa using Ne.symm hj), h.count, Nat.add_zero]

theorem countP_eraseP {name : String} {id : TrackerId} (h : names.lookup name = some id)
    (j : TrackerId) :
    (names.eraseP (·.1 = name)).countP (·.2 = j) + (if j = id then 1 else 0) =
      names.countP (·.2 = j) := by
  induction names with
  | nil => cases h
  | cons e names ih =>
    obtain ⟨n, i⟩ := e
    by_cases hn : n = name
    · subst hn
      obtain rfl : i = id := by simpa using h
      simp [List.countP_cons, eq_comm]
    · rw [List.lookup_cons, beq_eq_false_iff_ne.2 (Ne.symm hn)] at h
      rw [List.eraseP_cons_of_neg (by simpa using hn), List.countP_cons, List.countP_cons, ← ih h]
      omega

theorem drop (h : ts.Owned names) {name : String} {id : TrackerId}
    (hl : names.lookup name = some id) :
    (ts.modify id fun t => { t with handles := t.handles - 1 }).Owned
      (names.eraseP (·.1 = name)) := by
  refine ⟨fun e he => Nat.lt_of_lt_of_le (h.lt e (List.mem_of_mem_eraseP he)) (ts.next_le_set id _),
    fun j => ?_⟩
  have hc := countP_eraseP hl j
  rw [← h.count] at hc
  rw [Table.modify, get_set]
  split
  · next hj => rw [if_pos hj, hj] at hc; rw [hj, ← hc]; rfl
  · next hj => rw [if_neg hj] at hc; exact hc.symm

end Table.Owned

/-! ### Commands and turns -/

variable [Foreign F]

namespace World
variable {w w' : World F}

theorem Move.continues (h : Move w w') : w.trackers.Continues w'.trackers := by
  cases h with
  | bind name h hr =>
    obtain ⟨_, _, _, _, _, ht, -⟩ := Tracker.exists_bind_ok h
    exact .push (by rw [ht])
  | clone name h => exact .set (.of_listeners rfl rfl Iff.rfl (.refl _))
  | drop h => exact .set (.of_listeners rfl rfl Iff.rfl (.refl _))
  | listeners h hf => exact .set (.of_listeners rfl rfl Iff.rfl (hf _))
  | dispose h => exact .set (.dispose _)
  | _ => exact .refl _

theorem Move.owned (h : Move w w') (ho : w.trackers.Owned w.names.trackers) :
    w'.trackers.Owned w'.names.trackers := by
  cases h with
  | bind name h hr =>
    obtain ⟨_, _, _, _, _, ht, -⟩ := Tracker.exists_bind_ok h
    exact ho.push (by rw [ht]) name
  | clone name h =>
    obtain ⟨_, hm⟩ := h
    exact ho.clone hm name
  | drop h =>
    obtain ⟨before, hl, hn⟩ := Option.bind_eq_some_iff.1 (lookup_of_find h)
    cases hn
    exact ho.drop hl
  | listeners h hf => exact ho.set rfl
  | dispose h => exact ho.set (Tracker.handles_dispose _ _)
  | _ => exact ho

theorem Moves.owned (h : Moves w w') (ho : w.trackers.Owned w.names.trackers) :
    w'.trackers.Owned w'.names.trackers := by
  induction h with
  | refl => exact ho
  | tail _ h ih => exact h.owned ih

theorem Does.owned {notice : Notice} (h : w.Does w' notice)
    (ho : w.trackers.Owned w.names.trackers) :
    w'.trackers.Owned w'.names.trackers := by
  cases h with
  | moves h => exact Moves.owned h ho
  | mutates h => exact h.owned (F := F) ho

theorem Moves.continues (h : Moves w w') : w.trackers.Continues w'.trackers := by
  induction h with
  | refl => exact .refl _
  | tail _ h ih => exact ih.trans h.continues

theorem Does.continues {notice : Notice} (h : w.Does w' notice) :
    w.trackers.Continues w'.trackers := by
  cases h with
  | moves h => exact Moves.continues h
  | mutates h => exact h.continues (F := F)

end World

namespace Machine
variable {m m' : Machine F}

omit [Foreign F] in
@[simp] theorem world_notify (m : Machine F) (notice : Notice) :
    (m.notify notice).world = m.world := by
  cases notice <;> rfl

theorem Turn.continues {frame : Frame F} (h : m.Turn frame m') :
    m.world.trackers.Continues m'.world.trackers := by
  cases h with
  | perform c cs => rw [world_notify]; exact (m.does_perform c).continues
  | pass _ _ hp => exact .set (.pass _ _ (by simp [hp]))
  | mark => exact .set (.of_listeners rfl rfl Iff.rfl (.refl _))
  | again hp => exact .set (.pass _ _ hp)
  | settle hp => exact .set (.of_listeners rfl rfl ⟨nofun, fun h => absurd h hp⟩ (.refl _))
  | _ => exact .refl _

theorem Turn.owned {frame : Frame F} (h : m.Turn frame m')
    (ho : m.world.trackers.Owned m.world.names.trackers) :
    m'.world.trackers.Owned m'.world.names.trackers := by
  cases h with
  | perform c cs => rw [world_notify]; exact (m.does_perform c).owned ho
  | pass | again => exact ho.set (Tracker.handles_pass _ _ _)
  | mark | settle => exact ho.set rfl
  | _ => exact ho

theorem Step.owned (h : m.Step m') (ho : m.world.trackers.Owned m.world.names.trackers) :
    m'.world.trackers.Owned m'.world.names.trackers := by
  cases h with
  | turn h =>
    obtain ⟨frame, m₀, rfl, ht⟩ := exists_turn h
    exact ht.owned ho
  | command h c => rw [begin, world_notify]; exact (m.afresh.does_perform c).owned ho
  | divert h => exact ho

theorem Reachable.owned (h : m.Reachable) : m.world.trackers.Owned m.world.names.trackers :=
  h.rec_step ⟨nofun, fun _ => rfl⟩ fun _ _ => Step.owned

theorem Step.continues (h : m.Step m') : m.world.trackers.Continues m'.world.trackers := by
  cases h with
  | turn h =>
    obtain ⟨frame, m₀, rfl, ht⟩ := exists_turn h
    exact ht.continues
  | command h c => rw [begin, world_notify]; exact (m.afresh.does_perform c).continues
  | divert h => exact .refl _

theorem Leads.continues (h : m.Leads m') : m.world.trackers.Continues m'.world.trackers := by
  induction h with
  | refl => exact .refl _
  | tail _ h ih => exact ih.trans h.continues

/-! ### Listeners of a value -/

end Machine

/-- A value of an existing tracker is on its way to listeners that were there, and are not if it is
disposed. -/
def Frame.Sound (ts : Table Tracker) : Frame F → Prop
  | change id _ pending => id < ts.next ∧ ∀ r ∈ pending, (ts.get id).listeners.Issued r.key ∧
      ((ts.get id).phase = .disposed → r.key ∉ (ts.get id).listeners.keys)
  | _ => True

omit [Foreign F] in
theorem Frame.Sound.mono {ts ts' : Table Tracker} {frame : Frame F} (h : frame.Sound ts)
    (hc : ts.Continues ts') (hk : ts.Keyed) : frame.Sound ts' := by
  cases frame with
  | change id v pending =>
    obtain ⟨hid, hp⟩ := h
    have ht := hc.tracker id hid
    exact ⟨Nat.lt_of_lt_of_le hid hc.next_le, fun r hr =>
      ⟨ht.listeners.issued _ (hp r hr).1, ht.silent (hk id) _ (hp r hr).1 (hp r hr).2⟩⟩
  | _ => trivial

omit [Foreign F] in
theorem Frame.Sound.of_advances {ts : Table Tracker} {frame frame' : Frame F} (h : frame.Sound ts)
    (ha : frame.Advances frame') : frame'.Sound ts := by
  cases ha with
  | text => trivial
  | change id v r pending => exact ⟨h.1, fun r' hr => h.2 r' (List.mem_cons_of_mem _ hr)⟩

namespace Machine
variable {m m' : Machine F}

/-- The registries of change listeners are in order, and so are the values on their way to them. -/
structure Listening (m : Machine F) : Prop where
  keyed : m.world.trackers.Keyed
  frames : ∀ frame ∈ m.stack, frame.Sound m.world.trackers

theorem sound_stack_pass {id : TrackerId} (hp : (m.world.trackers.get id).phase ≠ .disposed)
    (h : ∀ frame ∈ m.stack, frame.Sound (m.pass id).world.trackers) :
    ∀ frame ∈ (m.pass id).stack, frame.Sound (m.pass id).world.trackers := by
  intro frame hf
  have hget : (m.pass id).world.trackers.get id =
      ((m.world.trackers.get id).pass id m.world.graph).1.tracker :=
    Table.get_set_self ..
  rw [stack_pass] at hf
  rcases List.mem_append.1 hf with hf | hf
  · cases hv : ((m.world.trackers.get id).pass id m.world.graph).2 with
    | none => rw [hv] at hf; cases hf
    | some v =>
      rw [hv] at hf
      obtain rfl := List.mem_singleton.1 hf
      refine ⟨?_, fun r hr => ?_⟩
      · rw [world_pass]; exact Nat.lt_of_lt_of_le (lt_next_of_phase hp) (Table.next_le_set ..)
      · rw [hget, Tracker.tracker_pass]
        exact ⟨Registry.issued_of_mem (Registry.mem_keys hr), nofun⟩
  · rcases List.mem_cons.1 hf with rfl | hf
    · trivial
    · exact h frame hf

omit [Foreign F] in
theorem stack_notify (m : Machine F) (notice : Notice) :
    ∃ frames, (m.notify notice).stack = frames ++ m.stack ∧
      ∀ frame ∈ frames, ∀ ts, frame.Sound ts := by
  cases notice with
  | silent => exact ⟨[], rfl, nofun⟩
  | topics o ts => exact ⟨[_], rfl, fun frame hf _ => by rw [List.mem_singleton.1 hf]; trivial⟩
  | text d s tags => exact ⟨[_], rfl, fun frame hf _ => by rw [List.mem_singleton.1 hf]; trivial⟩

theorem Turn.listening {frame : Frame F} (h : m.Turn frame m') (hm : (m.push frame).Listening) :
    m'.Listening := by
  have hk := h.continues.keyed hm.keyed
  obtain ⟨hframe, hrest⟩ := List.forall_mem_cons.1 hm.frames
  have hold : ∀ f ∈ m.stack, f.Sound m'.world.trackers :=
    fun f hf => (hrest f hf).mono h.continues hm.keyed
  refine ⟨hk, ?_⟩
  cases h with
  | perform c cs =>
    obtain ⟨frames, hs, hn⟩ := stack_notify
      (((m.perform c).1.push (.script cs)).push (.finish (m.perform c).2.1)) (m.perform c).2.2
    rw [hs]
    refine List.forall_mem_append.2 ⟨fun f hf => hn f hf _, ?_⟩
    refine List.forall_mem_cons.2 ⟨trivial, List.forall_mem_cons.2 ⟨trivial, ?_⟩⟩
    rw [stack_perform]; exact hold
  | pass pending _ hp =>
    exact sound_stack_pass (m := m.push _) (by simp [push, hp])
      (List.forall_mem_cons.2 ⟨trivial, hold⟩)
  | again hp => exact sound_stack_pass hp hold
  | skip ha => exact List.forall_mem_cons.2 ⟨hframe.of_advances ha, hold⟩
  | call ha =>
    exact List.forall_mem_cons.2 ⟨trivial, List.forall_mem_cons.2 ⟨hframe.of_advances ha, hold⟩⟩
  | announce | hear =>
    exact List.forall_mem_cons.2 ⟨trivial, List.forall_mem_cons.2 ⟨trivial, hold⟩⟩
  | miss | mark | ignore => exact List.forall_mem_cons.2 ⟨trivial, hold⟩
  | spent | answer | settle | finished => exact hold

theorem Step.listening (h : m.Step m') (hm : m.Listening) : m'.Listening := by
  cases h with
  | turn h =>
    obtain ⟨frame, m₀, rfl, ht⟩ := exists_turn h
    exact ht.listening hm
  | command h c =>
    obtain ⟨frames, hs, hn⟩ := stack_notify (m.afresh.perform c).1 (m.afresh.perform c).2.2
    refine ⟨?_, ?_⟩
    · rw [begin, world_notify]; exact (m.afresh.does_perform c).continues.keyed hm.keyed
    · rw [begin, hs, stack_perform, show m.afresh.stack = [] from h, List.append_nil]
      exact fun f hf => hn f hf _
  | divert h cs' =>
    refine ⟨hm.keyed, List.forall_mem_cons.2 ⟨trivial, ?_⟩⟩
    exact (List.forall_mem_cons.1 (h ▸ hm.frames)).2

theorem Reachable.listening (h : m.Reachable) : m.Listening :=
  h.rec_step ⟨fun _ => Registry.wellFormed_default, nofun⟩ fun _ _ => Step.listening

end Machine
end LivePath
