import LivePath.Proofs.Emissions
import LivePath.Proofs.Stacks
import Mathlib.Data.Nat.Find
import Mathlib.Order.WellFounded

/-!
# Work comes to an end

What listeners are going to do is a budget: the commands that they still have to carry out, those
they have yet to register listeners with among them. As long as this budget is not raised, the rank
of a machine falls with every turn, whatever listeners decide to do with it (`rank_toils`). So there
is no endless run, and each operation is over after finitely many turns.

A tracker that was made to handle a notification makes one pass after the other. In the middle of a
pass it does not wait, so that a notification only marks it, and nothing else marks it or takes the
mark away (`Above.dirty_iff`). So at the end of a pass the mark tells whether there was a
notification. The main statement is `handlers_come_to_rest`.
-/

namespace LivePath
variable {F : Type}

theorem total_congr {α : Type} {R : α → α → Prop} {f : α → Nat} {xs ys : List α}
    (h : List.Forall₂ R xs ys) (hf : ∀ x y, R x y → f x = f y) : total f xs = total f ys := by
  induction h with
  | nil => rfl
  | cons hx _ ih => rw [total_cons, total_cons, hf _ _ hx, ih]

/-- At most the commands that are left to a running script are others. -/
inductive Frame.Revised : Frame F → Frame F → Prop
  | same (frame : Frame F) : Revised frame frame
  | script (cs cs' : List (Command F)) : Revised (.script cs) (.script cs')

namespace Machine
variable {m m' k : Machine F} {id : TrackerId} {below : List (Frame F)} {ms : List (Machine F)}

/-- Listeners choose anew what they are going to do, for instance not to run a script at this call
but at a later one. All in all they do not take on more commands. -/
structure Replans (m m' : Machine F) : Prop where
  world : m'.world = m.world
  frames : List.Forall₂ Frame.Revised m.stack m'.stack
  weight : m'.weight ≤ m.weight

variable [Foreign F]

/-- Work that is left goes on by one turn, and then listeners may choose anew what they are going to
do. -/
def Toils (m m' : Machine F) : Prop :=
  m.stack ≠ [] ∧ m.next.Replans m'

omit [Foreign F] in
theorem replans_refl (m : Machine F) : m.Replans m :=
  ⟨rfl, List.forall₂_same.2 fun frame _ => .same frame, Nat.le_refl _⟩

theorem rank_toils (h : m.Toils m') : WellFoundedRelation.rel m'.rank m.rank := by
  obtain ⟨hs, hr⟩ := h
  have hnext := m.rank_next_lt hs
  have htopics := total_congr (f := Frame.topics) hr.frames fun _ _ h => by cases h <;> rfl
  have hdeliveries := total_congr (f := Frame.deliveries) hr.frames fun _ _ h => by cases h <;> rfl
  have howes := total_congr (f := Frame.owes m'.world.trackers) hr.frames fun _ _ h => by
    cases h <;> rfl
  have hcalls := total_congr (f := Frame.calls) hr.frames fun _ _ h => by cases h <;> rfl
  have hlength := hr.frames.length_eq
  have hweight := hr.weight
  rw [hr.world] at howes
  simp only [WellFoundedRelation.rel, rank, Prod.lex_def, InvImage, sizeOf_nat, hr.world] at hnext ⊢
  omega

theorem exists_not_toils (f : Nat → Machine F) : ∃ n, ¬ (f n).Toils (f (n + 1)) := by
  have : IsWellFounded (Machine F) fun m' m => m.Toils m' :=
    ⟨Subrelation.wf rank_toils (InvImage.wf rank WellFoundedRelation.wf)⟩
  exact WellFounded.not_rel_apply_succ (r := fun m' m : Machine F => m.Toils m') f

theorem exists_operation_over (m : Machine F) (c : Command F) :
    ∃ n, (next^[n] ((m.perform c).1.notify (m.perform c).2.2)).stack = m.stack := by
  have h := suffix_notify (m.perform c).1 (m.perform c).2.2
  rw [stack_perform] at h
  exact exists_stack_iterate_next h

/-! ### What happens above a frame -/

/-- A run from `m` to `m'` that does not reach `below` before its end. The states that it leaves
behind are `ms`. -/
inductive Above (below : List (Frame F)) : Machine F → List (Machine F) → Machine F → Prop
  | refl (m : Machine F) : Above below m [] m
  | step {m k m' : Machine F} {ms : List (Machine F)} (h : m.Step k) (hb : m.stack ≠ below)
      (hr : Above below k ms m') : Above below m (m :: ms) m'

theorem above_iterate {n : Nat}
    (h : ∀ i < n, (next^[i] m).stack ≠ [] ∧ (next^[i] m).stack ≠ below) :
    m.Above below ((List.range n).map fun i => next^[i] m) (next^[n] m) := by
  induction n generalizing m with
  | zero => exact .refl m
  | succ n ih =>
    rw [List.range_succ_eq_map, List.map_cons, List.map_map]
    obtain ⟨hne, hb⟩ := h 0 (Nat.succ_pos n)
    exact .step (.turn hne) hb (ih fun i hi => h (i + 1) (Nat.succ_lt_succ hi))

omit [Foreign F] in
theorem ne_nil_of_suffix (hs : below <:+ m.stack) (hne : m.stack ≠ below) : m.stack ≠ [] := by
  intro hnil
  rw [hnil] at hs hne
  exact hne (List.suffix_nil.1 hs).symm

theorem exists_above (hs : below <:+ m.stack) :
    ∃ n ms, m.Above below ms (next^[n] m) ∧ (next^[n] m).stack = below := by
  classical
  have hex := exists_stack_iterate_next hs
  have hbefore (i : Nat) (hi : i < Nat.find hex) : (next^[i] m).stack ≠ below := Nat.find_min hex hi
  have hsuf (i : Nat) (hi : i ≤ Nat.find hex) : below <:+ (next^[i] m).stack := by
    induction i with
    | zero => exact hs
    | succ i ih =>
      rw [Function.iterate_succ_apply']
      have hne := hbefore i hi
      have hsi := ih (Nat.le_of_succ_le hi)
      exact (Step.turn (ne_nil_of_suffix hsi hne)).suffix hsi hne
  refine ⟨Nat.find hex, _, above_iterate fun i hi => ?_, Nat.find_spec hex⟩
  exact ⟨ne_nil_of_suffix (hsuf i (Nat.le_of_lt hi)) (hbefore i hi), hbefore i hi⟩

end Machine

/-! ### Marks -/

theorem Tracker.dirty_dispose (t : Tracker) (g : Graph F) :
    (t.dispose g).tracker.dirty = t.dirty := by
  unfold dispose
  split <;> rfl

namespace World
variable [Foreign F] {w w' : World F} {id : TrackerId}

theorem Move.dirty (hm : Move w w') (hid : id < w.trackers.next) :
    (w'.trackers.get id).dirty = (w.trackers.get id).dirty := by
  cases hm with
  | bind => exact congrArg Tracker.dirty (Table.get_push_ne _ (Nat.ne_of_lt hid) _)
  | clone | drop | listeners => exact Table.apply_get_set Tracker.dirty (by rfl) id
  | dispose => exact Table.apply_get_set Tracker.dirty (Tracker.dirty_dispose ..) id
  | _ => rfl

theorem Moves.dirty (hm : Moves w w') (hid : id < w.trackers.next) :
    (w'.trackers.get id).dirty = (w.trackers.get id).dirty := by
  induction hm with
  | refl => rfl
  | tail hms hm ih =>
    exact (hm.dirty (Nat.lt_of_lt_of_le hid (Moves.continues hms).next_le)).trans ih

theorem Does.dirty {notice : Notice} (hd : w.Does w' notice) (hid : id < w.trackers.next) :
    (w'.trackers.get id).dirty = (w.trackers.get id).dirty := by
  cases hd with
  | moves hm => exact Moves.dirty hm hid
  | mutates hm => exact hm.dirty (F := F) hid

end World

namespace Machine
variable [Foreign F] {m m' k : Machine F} {id : TrackerId} {below : List (Frame F)}
  {ms : List (Machine F)}

/-- A notification reaches a tracker: one of its hooks has its turn, and is registered. -/
def Notifies (m : Machine F) (id : TrackerId) : Prop :=
  ∃ o t r pending rest, m.stack = .topic o t (r :: pending) :: rest ∧ r.listener = .tracker id ∧
    (m.world.graph.registries.get o).contains r.key = true

theorem next_of_topic {o : ObjectId} {t : Topic} {r : Registration Topic Observer}
    {pending : List (Registration Topic Observer)}
    (hs : m.stack = .topic o t (r :: pending) :: below) :
    m.next = deliver { m with stack := .topic o t pending :: below } o t r := by
  obtain ⟨world, scripts, stack⟩ := m
  obtain rfl : stack = _ := hs
  rfl

theorem next_of_handling (hs : m.stack = .handling id :: below) :
    m.next = endPass { m with stack := below } id := by
  obtain ⟨world, scripts, stack⟩ := m
  obtain rfl : stack = _ := hs
  rfl

/-- Only a notification marks a tracker, and only its own pass takes the mark away. -/
theorem Turn.dirty {frame : Frame F} (h : m.Turn frame m') (hid : id < m.world.trackers.next)
    (hf : frame ≠ .handling id) (ht : ∀ o t r pending, frame ≠ .topic o t (r :: pending)) :
    (m'.world.trackers.get id).dirty = (m.world.trackers.get id).dirty := by
  cases h with
  | perform c cs => rw [world_notify]; exact (m.does_perform c).dirty hid
  | miss | hear | pass | mark | ignore => exact absurd rfl (ht _ _ _ _)
  | @again i =>
    have hi : id ≠ i := fun he => hf (by rw [he])
    exact congrArg Tracker.dirty (Table.get_set_ne _ hi _)
  | @settle i =>
    have hi : id ≠ i := fun he => hf (by rw [he])
    exact congrArg Tracker.dirty (Table.get_set_ne _ hi _)
  | _ => rfl

theorem dirty_deliver {o : ObjectId} {t : Topic} {r : Registration Topic Observer}
    (hb : (m.world.trackers.get id).phase ≠ .bound)
    (hd : (m.world.trackers.get id).phase ≠ .disposed) :
    ((m.deliver o t r).world.trackers.get id).dirty = true ↔
      (m.world.trackers.get id).dirty = true ∨
      r.listener = .tracker id ∧ (m.world.graph.registries.get o).contains r.key = true := by
  unfold deliver
  by_cases hk : (m.world.graph.registries.get o).contains r.key = true
  · rw [if_pos hk]
    cases hl : r.listener with
    | script i => simp [call, World.record]
    | tracker i =>
      by_cases hi : id = i
      · subst hi
        cases hp : (m.world.trackers.get id).phase with
        | bound => exact absurd hp hb
        | disposed => exact absurd hp hd
        | rebinding => simp [notifyTracker, hp, World.modifyTracker, Table.modify, hk]
      · have hother : ((m.notifyTracker i).world.trackers.get id) = m.world.trackers.get id := by
          simp only [notifyTracker]
          split
          · split
            · rfl
            · exact Table.get_set_ne _ hi _
          · exact Table.get_set_ne _ hi _
          · rfl
        simp [hother, Ne.symm hi]
  · rw [if_neg hk]
    simp [hk]

theorem Step.dirty_iff (h : m.Step k) (ho : m.world.Orderly m.stack id)
    (hs : .handling id :: below <:+ m.stack) (hne : m.stack ≠ .handling id :: below)
    (hd : (m.world.trackers.get id).phase ≠ .disposed) :
    (k.world.trackers.get id).dirty = true ↔ (m.world.trackers.get id).dirty = true ∨
      m.Notifies id := by
  have hmem : .handling id ∈ m.stack.filter (Frame.isPass id) :=
    List.mem_filter.2 ⟨hs.subset (List.mem_cons_self ..), by simp⟩
  obtain ⟨hlt, hb⟩ : id < m.world.trackers.next ∧ (m.world.trackers.get id).phase ≠ .bound := by
    rcases ho with hnil | ⟨-, h⟩
    · rw [hnil] at hmem; cases hmem
    · exact h
  cases h with
  | command hr => rw [hr] at hs; cases List.suffix_nil.1 hs
  | divert hf =>
    refine (or_iff_left ?_).symm
    rintro ⟨o, t, r, pending, rest, hs, -⟩
    cases hf.symm.trans hs
  | turn hn =>
    -- Only the turn of a topic marks a tracker that is in the middle of a pass.
    by_cases htopic : ∃ o t r pending rest, m.stack = .topic o t (r :: pending) :: rest
    · obtain ⟨o, t, r, pending, rest, hstack⟩ := htopic
      rw [next_of_topic hstack]
      refine (dirty_deliver (m := { m with stack := .topic o t pending :: rest }) hb hd).trans ?_
      refine or_congr_right ⟨fun ⟨hl, hk⟩ => ⟨o, t, r, pending, rest, hstack, hl, hk⟩, ?_⟩
      rintro ⟨o', t', r', pending', rest', hs', hl, hk⟩
      cases hstack.symm.trans hs'
      exact ⟨hl, hk⟩
    · have hquiet : ¬ m.Notifies id :=
        fun ⟨o, t, r, pending, rest, hs, _⟩ => htopic ⟨o, t, r, pending, rest, hs⟩
      rw [or_iff_left hquiet]
      obtain ⟨frame, m₀, rfl, ht⟩ := exists_turn hn
      refine Bool.eq_iff_iff.1 (ht.dirty hlt ?_ fun o t r pending he =>
        htopic ⟨o, t, r, pending, m₀.stack, ?_⟩)
      · -- A tracker is in the middle of one pass only, and the frame of this one lies below.
        rintro rfl
        have hrest : .handling id :: below <:+ m₀.stack :=
          (List.suffix_cons_iff.1 hs).resolve_left (Ne.symm hne)
        have hmem : .handling id ∈ m₀.stack.filter (Frame.isPass id) :=
          List.mem_filter.2 ⟨hrest.subset (List.mem_cons_self ..), by simp⟩
        rw [ho.below] at hmem
        cases hmem
      · rw [he]; rfl

theorem Above.leads (h : m.Above below ms m') : m.Leads m' := by
  induction h with
  | refl => exact .refl
  | step h _ _ ih => exact .head h ih

/-- At the end of a pass the tracker is marked if and only if it was notified in the middle of
it. -/
theorem Above.dirty_iff (h : m.Above (.handling id :: below) ms m') (hm : m.Reachable)
    (hs : .handling id :: below <:+ m.stack) (hid : id < m.world.trackers.next)
    (hd : (m'.world.trackers.get id).phase ≠ .disposed) :
    (m'.world.trackers.get id).dirty = true ↔ (m.world.trackers.get id).dirty = true ∨
      ∃ j ∈ ms, j.Notifies id := by
  induction h with
  | refl => simp
  | @step m k m' ms h hb hr ih =>
    have hlive : (m.world.trackers.get id).phase ≠ .disposed := fun hp =>
      hd (((Leads.continues (.head h hr.leads)).tracker id hid).disposed hp)
    rw [ih (hm.leads (.single h)) (h.suffix hs hb) (Nat.lt_of_lt_of_le hid h.continues.next_le) hd,
      h.dirty_iff (hm.orderly id) hs hb hlive]
    simp [or_assoc]

/-! ### Passes -/

theorem handling_mem_pass {i : TrackerId} :
    .handling id ∈ (m.pass i).stack ↔ id = i ∨ .handling id ∈ m.stack := by
  rw [stack_pass]
  cases ((m.world.trackers.get i).pass i m.world.graph).2 <;> simp

omit [Foreign F] in
theorem handling_mem_notify {notice : Notice} :
    .handling id ∈ (m.notify notice).stack ↔ .handling id ∈ m.stack := by
  cases notice <;> simp [notify, push]

theorem Turn.handling_mem {frame : Frame F} (h : m.Turn frame m')
    (ht : ∀ o t r pending, frame ≠ .topic o t (r :: pending)) (hk : .handling id ∈ m'.stack) :
    .handling id ∈ (m.push frame).stack := by
  cases h with
  | perform c cs =>
    rw [handling_mem_notify] at hk
    simpa [push, stack_perform] using hk
  | miss | hear | pass | mark | ignore => exact absurd rfl (ht _ _ _ _)
  | again =>
    rcases handling_mem_pass.1 hk with rfl | hk
    · exact List.mem_cons_self ..
    · exact List.mem_cons_of_mem _ hk
  | announce => simpa [push] using hk
  | skip ha => cases ha <;> simpa [push] using hk
  | call ha =>
    have hmem := List.mem_of_ne_of_mem (by simp) hk
    cases ha <;> simpa [push] using hmem
  | _ => exact List.mem_cons_of_mem _ hk

theorem handling_mem_deliver {o : ObjectId} {t : Topic} {r : Registration Topic Observer}
    (h : .handling id ∈ (m.deliver o t r).stack) :
    .handling id ∈ m.stack ∨ r.listener = .tracker id ∧
      (m.world.graph.registries.get o).contains r.key = true := by
  unfold deliver at h
  split at h
  · next hk =>
    cases hl : r.listener with
    | script i =>
      rw [hl] at h
      exact .inl (List.mem_of_ne_of_mem (by simp) h)
    | tracker i =>
      simp only [hl, notifyTracker] at h
      split at h
      · split at h
        · exact .inl h
        · exact (handling_mem_pass.1 h).symm.imp_right fun hi => ⟨by rw [hi], hk⟩
      · exact .inl h
      · exact .inl h
  · exact .inl h

/-- What becomes of a notification. -/
theorem next_of_notifies {o : ObjectId} {t : Topic} {r : Registration Topic Observer}
    {pending : List (Registration Topic Observer)}
    (hs : m.stack = .topic o t (r :: pending) :: below) (hl : r.listener = .tracker id)
    (hk : (m.world.graph.registries.get o).contains r.key = true) :
    m.next = notifyTracker { m with stack := .topic o t pending :: below } id := by
  rw [next_of_topic hs, deliver]
  simp only [hl]
  exact if_pos hk

/-- A tracker that is in the middle of no pass begins one only when it is notified. -/
theorem Step.notifies (h : m.Step k) (hn : .handling id ∉ m.stack) (hk : .handling id ∈ k.stack) :
    m.Notifies id := by
  cases h with
  | command hr c =>
    rw [begin, handling_mem_notify, stack_perform] at hk
    exact absurd hk hn
  | divert hf =>
    rw [hf] at hn
    simp_all
  | turn hs =>
    by_cases htopic : ∃ o t r pending rest, m.stack = .topic o t (r :: pending) :: rest
    · obtain ⟨o, t, r, pending, rest, hs⟩ := htopic
      rw [next_of_topic hs] at hk
      rw [hs] at hn
      rcases handling_mem_deliver hk with hmem | ⟨hl, hk⟩
      · exact absurd (List.mem_cons_of_mem _ (List.mem_of_ne_of_mem (by simp) hmem)) hn
      · exact ⟨o, t, r, pending, rest, hs, hl, hk⟩
    · obtain ⟨frame, m₀, rfl, ht⟩ := exists_turn hs
      exact absurd (ht.handling_mem (fun o t r pending he =>
        htopic ⟨o, t, r, pending, m₀.stack, by rw [he]; rfl⟩) hk) hn

theorem endPass_of_dirty (hp : (m.world.trackers.get id).phase ≠ .disposed)
    (hd : (m.world.trackers.get id).dirty = true) : m.endPass id = m.pass id := by
  rw [endPass]
  split
  · next h => exact absurd h hp
  · exact if_pos hd

theorem endPass_of_clean (hp : (m.world.trackers.get id).phase ≠ .disposed)
    (hd : (m.world.trackers.get id).dirty = false) :
    m.endPass id = { m with world := m.world.modifyTracker id fun t =>
      { t with phase := .bound } } := by
  rw [endPass]
  split
  · next h => exact absurd h hp
  · exact if_neg (Bool.eq_false_iff.1 hd)

theorem handling_suffix_pass (m : Machine F) (id : TrackerId) :
    .handling id :: m.stack <:+ (m.pass id).stack := by
  rw [stack_pass]
  exact List.suffix_append ..

/--
Handlers come to rest. There is no endless run in which listeners take on no more commands than they
had left, and whatever has been announced is settled after finitely many turns. A tracker that waits
is brought to a pass by a notification and by nothing else. A notification in the middle of a pass
only marks it. Each pass is over after finitely many turns. Then, if the tracker was disposed,
nothing more is done; if it was notified in the middle of the pass, however often, it makes one more
pass; and if it was not, it waits.
-/
theorem handlers_come_to_rest (hm : m.Reachable) (id : TrackerId) :
    (∀ f : Nat → Machine F, ∃ n, ¬ (f n).Toils (f (n + 1))) ∧
    (∀ c, ∃ n, (next^[n] ((m.perform c).1.notify (m.perform c).2.2)).stack = m.stack) ∧
    (∀ k, m.Step k → .handling id ∉ m.stack → .handling id ∈ k.stack → m.Notifies id) ∧
    (∀ o t r pending rest, m.stack = .topic o t (r :: pending) :: rest → r.listener = .tracker id →
      (m.world.graph.registries.get o).contains r.key = true →
      let told := { m with stack := .topic o t pending :: rest }
      ((m.world.trackers.get id).phase = .bound → (m.world.trackers.get id).handles ≠ 0 →
          m.next = told.pass id) ∧
      ((m.world.trackers.get id).phase = .rebinding →
        m.next =
          { told with world := m.world.modifyTracker id fun t => { t with dirty := true } })) ∧
    ∀ b : Machine F, m = b.pass id →
      (∃ n ms, m.Above (.handling id :: b.stack) ms (next^[n] m) ∧
        (next^[n] m).stack = .handling id :: b.stack) ∧
      ∀ ms k, m.Above (.handling id :: b.stack) ms k → k.stack = .handling id :: b.stack →
        let after := { k with stack := b.stack }
        ((k.world.trackers.get id).phase = .disposed → k.next = after) ∧
        ((k.world.trackers.get id).phase ≠ .disposed → (∃ j ∈ ms, j.Notifies id) →
          k.next = after.pass id) ∧
        ((k.world.trackers.get id).phase ≠ .disposed → (∀ j ∈ ms, ¬ j.Notifies id) →
          k.next = { after with
            world := k.world.modifyTracker id fun t => { t with phase := .bound } }) := by
  refine ⟨exists_not_toils, m.exists_operation_over, fun k => Step.notifies, ?_, ?_⟩
  · intro o t r pending rest hs hl hk told
    rw [next_of_notifies hs hl hk, notifyTracker]
    refine ⟨fun hp hh => ?_, fun hp => ?_⟩
    · simp only [hp]
      exact if_neg hh
    · simp only [hp]
      rfl
  · rintro b rfl
    have hs := b.handling_suffix_pass id
    refine ⟨exists_above hs, ?_⟩
    intro ms k ha hk after
    have hget : (b.pass id).world.trackers.get id =
        ((b.world.trackers.get id).pass id b.world.graph).1.tracker := Table.get_set_self ..
    have hlive : ((b.pass id).world.trackers.get id).phase ≠ .disposed := by
      rw [hget, Tracker.tracker_pass]; exact Phase.noConfusion
    have hclean : ((b.pass id).world.trackers.get id).dirty = false := by rw [hget, dirty_pass]
    -- A pass leaves its tracker clean, so that it is dirty in the end just if it was notified
    -- since.
    have hdirty (hp : (k.world.trackers.get id).phase ≠ .disposed) :
        (k.world.trackers.get id).dirty = true ↔ ∃ j ∈ ms, j.Notifies id := by
      rw [ha.dirty_iff hm hs (lt_next_of_phase hlive) hp, hclean]
      simp
    rw [next_of_handling hk]
    refine ⟨fun hp => ?_, fun hp hj => ?_, fun hp hj => ?_⟩
    · simp only [endPass, hp]
      rfl
    · exact endPass_of_dirty hp ((hdirty hp).2 hj)
    · refine endPass_of_clean hp (Bool.eq_false_iff.2 fun hd => ?_)
      obtain ⟨j, hmem, hn⟩ := (hdirty hp).1 hd
      exact hj j hmem hn

/-- A tracker in the middle of a pass. Its listener is about to set the attribute once more, this
first time only. -/
def rebounding : Machine Empty :=
  next^[2] ((tracking.begin
    (.listen "l" (.tracker "t") 1 [.act (.edit "m" (.set "name" (.int 7)))])).begin
      (.act (.edit "m" (.set "name" (.bool false)))))

theorem reachable_rebounding : rebounding.Reachable :=
  ((reachable_tracking.begin rfl _).begin rfl _).leads (leads_iterate_next _ 2)

/-- Nine turns later the pass is over, and another one is made for the notification that it led
to. -/
theorem handlers_come_to_rest_rebounding :
    let k := next^[9] rebounding
    let rest : List (Frame Empty) := [.topic 0 (.change "name") [], .announce 0 []]
    rebounding.Reachable ∧ k.stack = .handling 0 :: rest ∧
      (k.world.trackers.get 0).phase ≠ .disposed ∧
      k.next = pass { k with stack := rest } 0 := by
  intro k rest
  let b : Machine Empty :=
    { next ((tracking.begin
      (.listen "l" (.tracker "t") 1 [.act (.edit "m" (.set "name" (.int 7)))])).begin
        (.act (.edit "m" (.set "name" (.bool false))))) with stack := rest }
  have hlength : ∀ i < 9, rest.length + 1 < (next^[i] rebounding).stack.length := by decide
  have ha : rebounding.Above (.handling 0 :: rest) ((List.range 9).map fun i =>
      next^[i] rebounding) k := by
    refine above_iterate fun i hi => ⟨fun he => ?_, fun he => ?_⟩
    · exact absurd (hlength i hi) (by rw [he]; decide)
    · exact absurd (hlength i hi) (by rw [he]; decide)
  have hj : ∃ j ∈ (List.range 9).map fun i => next^[i] rebounding, j.Notifies 0 :=
    ⟨next^[3] rebounding, List.mem_map.2 ⟨3, by decide, rfl⟩, 0, .change "name", _, _,
      _, rfl, rfl, rfl⟩
  have hlive : (k.world.trackers.get 0).phase ≠ .disposed := by decide
  obtain ⟨-, -, -, -, hpass⟩ := handlers_come_to_rest reachable_rebounding 0
  exact ⟨reachable_rebounding, rfl, hlive, ((hpass b rfl).2 _ k ha rfl).2.1 hlive hj⟩

end Machine
end LivePath
