import LivePath.Proofs.Polling
import Mathlib.Data.List.Chain

/-!
# The stream of a tracker's values

Of the frames on the stack at most two belong to a tracker: its pass, and above it the delivery of
the value that this pass found (`World.Orderly`). So emissions never nest, and a notification in the
middle of one can only mark the tracker. A step either emits the value that the path leads to now,
which differs from the last one, or it leaves a last value that is strictly equal to the old one in
everything (`Step.streams`). Strict equality is no equivalence, since what is not a number differs
from itself, but it is enough that equal values compare alike. The main statement is
`emissions_never_repeat`.
-/

namespace LivePath
variable {F : Type}

namespace Frame

def isEmission (id : TrackerId) : Frame F → Bool
  | change i _ _ => i = id
  | _ => false

/-- The frame belongs to a pass of the tracker. -/
def isPass (id : TrackerId) : Frame F → Bool
  | handling i => i = id
  | frame => frame.isEmission id

@[simp] theorem isPass_handling (id i : TrackerId) :
    (handling i : Frame F).isPass id = decide (i = id) :=
  rfl

@[simp] theorem isPass_change (id i : TrackerId) (value : Option Value)
    (pending : List (Registration Unit ScriptId)) :
    (change i value pending : Frame F).isPass id = decide (i = id) :=
  rfl

theorem isPass_of_isEmission {id : TrackerId} {frame : Frame F} (h : frame.isEmission id = true) :
    frame.isPass id = true := by
  cases frame with
  | handling => cases h
  | _ => exact h

end Frame

/-- The frames of a pass: there is a value to be delivered, or there is none. -/
inductive Nest (id : TrackerId) : List (Frame F) → Prop
  | handling : Nest id [.handling id]
  | change (value : Option Value) (pending : List (Registration Unit ScriptId)) :
      Nest id [.change id value pending, .handling id]

namespace World
variable {w w' : World F} {stack stack' : List (Frame F)} {frame : Frame F} {id : TrackerId}

/-- A tracker is in the middle of one pass, and then it does not wait, or of none. -/
def Orderly (w : World F) (stack : List (Frame F)) (id : TrackerId) : Prop :=
  stack.filter (Frame.isPass id) = [] ∨
    Nest id (stack.filter (Frame.isPass id)) ∧ id < w.trackers.next ∧
    (w.trackers.get id).phase ≠ .bound

namespace Orderly

theorem congr (h : w.Orderly stack id)
    (hs : stack'.filter (Frame.isPass id) = stack.filter (Frame.isPass id))
    (hn : w.trackers.next ≤ w'.trackers.next)
    (hp : id < w.trackers.next → (w'.trackers.get id).phase = .bound →
      (w.trackers.get id).phase = .bound) :
    w'.Orderly stack' id := by
  rw [Orderly, hs]
  rcases h with h | ⟨hnest, hlt, hb⟩
  · exact .inl h
  · exact .inr ⟨hnest, Nat.lt_of_lt_of_le hlt hn, fun hb' => hb (hp hlt hb')⟩

theorem append {frames : List (Frame F)} (h : w.Orderly stack id)
    (hf : ∀ f ∈ frames, f.isPass id = false) :
    w.Orderly (frames ++ stack) id := by
  refine h.congr ?_ (Nat.le_refl _) fun _ hp => hp
  rw [List.filter_append, List.filter_eq_nil_iff.2 fun f hm => by simp [hf f hm], List.nil_append]

theorem push (h : w.Orderly stack id) (hf : frame.isPass id = false) :
    w.Orderly (frame :: stack) id := by
  have hs : ∀ f ∈ [frame], f.isPass id = false := List.forall_mem_singleton.2 hf
  exact h.append hs

theorem below (h : w.Orderly (.handling id :: stack) id) : stack.filter (Frame.isPass id) = [] := by
  have hf : (Frame.handling id :: stack).filter (Frame.isPass id) =
      .handling id :: stack.filter (Frame.isPass id) :=
    List.filter_cons_of_pos (by simp)
  rw [Orderly, hf] at h
  rcases h with h | ⟨h, -⟩
  · cases h
  · generalize stack.filter (Frame.isPass id) = rest at h
    cases h; rfl

theorem of_emission {value : Option Value} {pending : List (Registration Unit ScriptId)}
    (h : w.Orderly (.change id value pending :: stack) id) :
    stack.filter (Frame.isPass id) = [.handling id] ∧ id < w.trackers.next ∧
      (w.trackers.get id).phase ≠ .bound := by
  have hf : (Frame.change id value pending :: stack).filter (Frame.isPass id) =
      .change id value pending :: stack.filter (Frame.isPass id) :=
    List.filter_cons_of_pos (by simp)
  rw [Orderly, hf] at h
  rcases h with h | ⟨h, hlt⟩
  · cases h
  · refine ⟨?_, hlt⟩
    generalize stack.filter (Frame.isPass id) = rest at h
    cases h; rfl

theorem tail (h : w.Orderly (frame :: stack) id) (hn : frame ≠ .handling id) :
    w.Orderly stack id := by
  by_cases hf : frame.isPass id = true
  · cases frame with
    | handling i => exact absurd (congrArg Frame.handling (of_decide_eq_true hf)) hn
    | change i value pending =>
      obtain rfl : i = id := of_decide_eq_true hf
      obtain ⟨hrest, hlt⟩ := h.of_emission
      exact .inr ⟨hrest ▸ .handling, hlt⟩
    | _ => cases hf
  · exact h.congr (List.filter_cons_of_neg hf).symm (Nat.le_refl _) fun _ hp => hp

theorem advance {frame' : Frame F} (h : w.Orderly (frame :: stack) id)
    (ha : frame.Advances frame') :
    w.Orderly (frame' :: stack) id := by
  cases ha with
  | text => exact (h.tail (by simp)).push rfl
  | change i value r pending =>
    by_cases hi : i = id
    · subst hi
      obtain ⟨hrest, hlt⟩ := h.of_emission
      refine .inr ⟨?_, hlt⟩
      rw [List.filter_cons_of_pos (by simp), hrest]
      exact .change value pending
    · exact (h.tail (by simp)).push (decide_eq_false hi)

end Orderly

variable [Foreign F]

theorem Move.phase (h : Move w w') (hid : id < w.trackers.next)
    (hp : (w'.trackers.get id).phase = .bound) :
    (w.trackers.get id).phase = .bound := by
  cases h with
  | bind => exact (congrArg Tracker.phase (Table.get_push_ne _ (Nat.ne_of_lt hid) _)).symm.trans hp
  | clone | drop | listeners => exact (Table.apply_get_set Tracker.phase (by rfl) id).symm.trans hp
  | @dispose i =>
    by_cases hi : id = i
    · subst hi
      have hd := congrArg Tracker.phase
        (Table.get_set_self w.trackers id ((w.trackers.get id).dispose w.graph).tracker)
      rw [Tracker.phase_dispose] at hd
      cases hd.symm.trans hp
    · exact (congrArg Tracker.phase (Table.get_set_ne _ hi _)).symm.trans hp
  | _ => exact hp

theorem Moves.phase (h : Moves w w') (hid : id < w.trackers.next)
    (hp : (w'.trackers.get id).phase = .bound) :
    (w.trackers.get id).phase = .bound := by
  induction h with
  | refl => exact hp
  | tail hms hm ih => exact ih (hm.phase (Nat.lt_of_lt_of_le hid (Moves.continues hms).next_le) hp)

theorem Does.phase {notice : Notice} (h : w.Does w' notice) (hid : id < w.trackers.next)
    (hp : (w'.trackers.get id).phase = .bound) : (w.trackers.get id).phase = .bound := by
  cases h with
  | moves hm => exact Moves.phase hm hid hp
  | mutates hm => exact hm.phase (F := F) hid hp

end World

namespace Machine
variable [Foreign F] {m m' : Machine F} {id : TrackerId}

omit [Foreign F] in
theorem orderly_notify (h : m.world.Orderly m.stack id) (notice : Notice) :
    (m.notify notice).world.Orderly (m.notify notice).stack id := by
  cases notice with
  | silent => exact h
  | topics | text => exact h.push rfl

/-- Only a tracker that is in the middle of no pass begins one. -/
theorem orderly_pass (h : m.world.Orderly m.stack id) (i : TrackerId)
    (hi : i = id → (m.world.trackers.get id).phase ≠ .disposed ∧
      m.stack.filter (Frame.isPass id) = []) :
    (m.pass i).world.Orderly (m.pass i).stack id := by
  rw [world_pass, stack_pass]
  by_cases hid : i = id
  · subst hid
    obtain ⟨hp, hnil⟩ := hi rfl
    have hget : (m.world.retrack i ((m.world.trackers.get i).pass i m.world.graph).1).trackers.get
        i = ((m.world.trackers.get i).pass i m.world.graph).1.tracker := Table.get_set_self ..
    refine .inr ⟨?_, Nat.lt_of_lt_of_le (lt_next_of_phase hp) (Table.next_le_set ..), ?_⟩
    · rw [List.filter_append, List.filter_cons_of_pos (by simp), hnil]
      cases ((m.world.trackers.get i).pass i m.world.graph).2 with
      | none => exact .handling
      | some v =>
        rw [Option.elim_some, List.filter_cons_of_pos (by simp)]
        exact .change v _
    · rw [hget, Tracker.tracker_pass]; exact Phase.noConfusion
  · have hget : (m.world.retrack i ((m.world.trackers.get i).pass i m.world.graph).1).trackers.get
        id = m.world.trackers.get id := Table.get_set_ne _ (Ne.symm hid) _
    have hpass : m.world.Orderly (.handling i :: m.stack) id := h.push (decide_eq_false hid)
    refine (hpass.append fun f hf => ?_).congr rfl (Table.next_le_set ..) fun _ hp => hget ▸ hp
    cases hv : ((m.world.trackers.get i).pass i m.world.graph).2 with
    | none => rw [hv] at hf; cases hf
    | some v =>
      rw [hv] at hf
      rw [List.mem_singleton.1 hf]; exact decide_eq_false hid

theorem Turn.orderly {frame : Frame F} (ht : m.Turn frame m')
    (h : m.world.Orderly (frame :: m.stack) id) :
    m'.world.Orderly m'.stack id := by
  cases ht with
  | spent hs =>
    refine h.tail ?_
    rintro rfl; exact hs
  | perform c cs =>
    refine orderly_notify ?_ _
    have hd := m.does_perform c
    show (m.perform c).1.world.Orderly (_ :: _ :: (m.perform c).1.stack) id
    rw [stack_perform]
    exact (((h.tail (by simp)).congr rfl hd.continues.next_le fun hid hp =>
      hd.phase hid hp).push rfl).push rfl
  | answer a => exact (h.tail (by simp)).congr rfl (Nat.le_refl _) fun _ hp => hp
  | announce o t ts => exact ((h.tail (by simp)).push rfl).push rfl
  | miss | ignore => exact (h.tail (by simp)).push rfl
  | hear => exact (((h.tail (by simp)).push rfl).push rfl).congr rfl (Nat.le_refl _) fun _ hp => hp
  | @pass o t r pending i hl hp hh =>
    have hrest := h.tail (by simp)
    refine orderly_pass (m := m.push _) (hrest.push rfl) i fun hi => ?_
    subst hi
    -- A tracker that waits is in no pass, so that its new one is the only one.
    refine ⟨fun hd => (by cases hp.symm.trans hd), ?_⟩
    rcases hrest with hnil | ⟨-, -, hb⟩
    · exact hnil
    · exact absurd hp hb
  | @mark o t r pending i hl hp =>
    refine ((h.tail (by simp)).push rfl).congr rfl (Table.next_le_set ..) fun _ hb => ?_
    exact (Table.apply_get_set Tracker.phase (by rfl) id).symm.trans hb
  | skip ha => exact h.advance ha
  | call ha => exact ((h.advance ha).push rfl).congr rfl (Nat.le_refl _) fun _ hp => hp
  | @again i hp hd =>
    by_cases hi : i = id
    · subst hi
      exact orderly_pass (.inl h.below) i fun _ => ⟨hp, h.below⟩
    · exact orderly_pass (h.tail (by simpa using hi)) i fun he => absurd he hi
  | @settle i hp hd =>
    by_cases hi : i = id
    · subst hi
      exact .inl h.below
    · refine (h.tail (by simpa using hi)).congr rfl (Table.next_le_set ..) fun _ hb => ?_
      rw [← hb]
      exact congrArg Tracker.phase (Table.get_set_ne _ (Ne.symm hi) _).symm
  | @finished i hp =>
    by_cases hi : i = id
    · subst hi
      exact .inl h.below
    · exact h.tail (by simpa using hi)

theorem Step.orderly (hs : m.Step m') (h : m.world.Orderly m.stack id) :
    m'.world.Orderly m'.stack id := by
  cases hs with
  | turn hn =>
    obtain ⟨frame, m₀, rfl, ht⟩ := exists_turn hn
    exact ht.orderly h
  | command hr c =>
    refine orderly_notify (.inl ?_) _
    rw [stack_perform, show m.afresh.stack = [] from hr]; rfl
  | divert hf =>
    rw [hf] at h
    exact (h.tail (by simp)).push rfl

theorem Reachable.orderly (h : m.Reachable) (id : TrackerId) : m.world.Orderly m.stack id :=
  h.rec_step (.inl rfl) fun _ _ => Step.orderly

omit [Foreign F] in
theorem countP_isEmission_le_one (h : m.world.Orderly m.stack id) :
    m.stack.countP (Frame.isEmission id) ≤ 1 := by
  have hc : m.stack.countP (Frame.isEmission id) = (m.stack.filter (Frame.isPass id)).countP
      (Frame.isEmission id) := by
    rw [List.countP_filter]
    refine List.countP_congr fun frame _ => ?_
    rw [Bool.and_eq_true]
    exact ⟨fun he => ⟨he, Frame.isPass_of_isEmission he⟩, And.left⟩
  rw [hc]
  rcases h with h | ⟨h, -⟩
  · rw [h]; exact Nat.zero_le 1
  · generalize m.stack.filter (Frame.isPass id) = frames at h
    cases h <;> simp [Frame.isEmission]

/-- What becomes of a notification of a tracker that is in the middle of an emission. -/
theorem next_of_notified (h : m.world.Orderly m.stack id) {o : ObjectId} {t : Topic}
    {r : Registration Topic Observer} {pending : List (Registration Topic Observer)}
    {below : List (Frame F)} (hs : m.stack = .topic o t (r :: pending) :: below)
    (hl : r.listener = .tracker id) {frame : Frame F} (hf : frame ∈ below)
    (he : frame.isEmission id = true) :
    m.next = { m with
      stack := .topic o t pending :: below
      world :=
        if (m.world.graph.registries.get o).contains r.key = true ∧
            (m.world.trackers.get id).phase ≠ .disposed then
          m.world.modifyTracker id fun t => { t with dirty := true }
        else m.world } := by
  obtain ⟨world, scripts, stack⟩ := m
  obtain rfl : stack = _ := hs
  have hb : (world.trackers.get id).phase ≠ .bound := by
    rcases h.tail (by simp) with hnil | ⟨-, -, hb⟩
    · have hmem : frame ∈ below.filter (Frame.isPass id) :=
        List.mem_filter.2 ⟨hf, Frame.isPass_of_isEmission he⟩
      rw [hnil] at hmem; cases hmem
    · exact hb
  simp only [next, turn, deliver, hl, notifyTracker, push]
  by_cases hk : (world.graph.registries.get o).contains r.key = true
  · rw [if_pos hk]
    cases hp : (world.trackers.get id).phase with
    | bound => exact absurd hp hb
    | rebinding => rw [if_pos ⟨hk, Phase.noConfusion⟩]
    | disposed => rw [if_neg fun hn => hn.2 rfl]
  · rw [if_neg hk, if_neg fun hn => hk hn.1]

end Machine

/-! ### Emitted values -/

namespace Machine
variable {m m' b : Machine Empty} {id : TrackerId} {es : List (Option Value)}

/-- What a step means to the stream of a tracker's values, if it emits `es`. -/
inductive Streams (m m' : Machine Empty) (id : TrackerId) : List (Option Value) → Prop
  /-- The value that is remembered may be another one, but it compares like the old one. -/
  | silent (h : id < m.world.trackers.next →
      ∀ v, Value.sameOption (m'.world.trackers.get id).last v =
        Value.sameOption (m.world.trackers.get id).last v) :
      Streams m m' id []
  | emits {v : Option Value} (hlast : (m'.world.trackers.get id).last = v)
      (hnew : Value.sameOption (m.world.trackers.get id).last v = false)
      (hc : (m'.world.trackers.get id).Current m'.world.graph) (ho : m'.found id = .ok v) :
      Streams m m' id [v]

theorem Streams.of_last (he : es = [])
    (h : id < m.world.trackers.next →
      (m'.world.trackers.get id).last = (m.world.trackers.get id).last) :
    m.Streams m' id es := by
  subst he
  exact .silent fun hid v => by rw [h hid]

theorem streams_pass (hw : b.world = m.world) (hl : b.stack.length ≤ m.stack.length + 1)
    (i : TrackerId) :
    b.Streams (m.pass i) id (b.emits (m.pass i) id) := by
  rw [emits_pass hl]
  by_cases hi : i = id
  · subst hi
    have hp := Tracker.passed_pass i (m.world.trackers.get i) m.world.graph
    have hget : (m.pass i).world.trackers.get i =
        ((m.world.trackers.get i).pass i m.world.graph).1.tracker :=
      Table.get_set_self ..
    rw [if_pos rfl]
    cases ho : ((m.world.trackers.get i).trail m.world.graph).outcome with
    | error e =>
      obtain ⟨hlast, hnone⟩ := hp.failed e ho
      exact .of_last (by rw [hnone]; rfl) fun _ => by rw [hget, hlast, hw]
    | ok v =>
      obtain ⟨hlast, hnew⟩ := hp.found v ho
      rw [hnew]
      split
      · next hsame =>
        refine .silent fun _ u => ?_
        rw [hget, hlast, hw, Value.sameOption_congr hsame]
      · next hdiffers =>
        -- The value that is found differs from the last one, and is remembered as it is emitted.
        have hcur := Tracker.current_pass i (m.world.trackers.get i) m.world.graph
        refine .emits ((congrArg Tracker.last hget).trans hlast) ?_ (hget ▸ hcur) ?_
        · rw [hw]; exact Bool.eq_false_iff.2 hdiffers
        · rw [found, Graph.get_eq, hget, Tracker.tracker_pass]
          exact (congrArg Walk.outcome (Graph.trail_of_eq hp.objects hp.arrays)).trans ho
  · rw [if_neg hi]
    exact .of_last rfl fun _ => by
      rw [hw]; exact congrArg Tracker.last (Table.get_set_ne _ (Ne.symm hi) _)

theorem Turn.streams {frame : Frame Empty} (ht : m.Turn frame m') :
    (m.push frame).Streams m' id ((m.push frame).emits m' id) := by
  have hshrinks (h : m'.stack.length ≤ m.stack.length + 1) : (m.push frame).emits m' id = [] :=
    emits_of_length_le h
  cases ht with
  | spent => exact .of_last (hshrinks (Nat.le_succ _)) fun _ => rfl
  | perform c cs =>
    refine .of_last (emits_notify (by rfl) _) fun hid => ?_
    rw [world_notify]; exact (m.does_perform c).last hid
  | answer a => exact .of_last (hshrinks (Nat.le_succ _)) fun _ => rfl
  | announce | miss | ignore | hear | call => exact .of_last rfl fun _ => rfl
  | pass =>
    refine streams_pass ?_ ?_ _
    · rfl
    · exact Nat.le_succ _
  | mark => exact .of_last rfl fun _ => Table.apply_get_set Tracker.last (by rfl) id
  | skip => exact .of_last (hshrinks (Nat.le_refl _)) fun _ => rfl
  | again =>
    refine streams_pass ?_ ?_ _
    · rfl
    · exact Nat.le_refl _
  | settle =>
    refine .of_last (hshrinks (Nat.le_succ _)) fun _ => ?_
    exact Table.apply_get_set Tracker.last (by rfl) id
  | finished => exact .of_last (hshrinks (Nat.le_succ _)) fun _ => rfl

theorem Step.streams (hs : m.Step m') : m.Streams m' id (m.emits m' id) := by
  cases hs with
  | turn hn =>
    obtain ⟨frame, m₀, rfl, ht⟩ := exists_turn hn
    exact ht.streams
  | command hr c =>
    refine .of_last ?_ fun hid => ?_
    · exact emits_notify
        (emits_of_length_le (Nat.le_of_eq (congrArg List.length (stack_perform ..)))) _
    · rw [begin, world_notify]; exact (m.afresh.does_perform c).last hid
  | divert hf cs' =>
    refine .of_last (emits_of_length_le ?_) fun _ => rfl
    rw [hf]; exact Nat.le_refl _

/-- A run in which a tracker emits these values, one after the other. -/
inductive Run (id : TrackerId) : Machine Empty → List (Option Value) → Machine Empty → Prop
  | refl (m : Machine Empty) : Run id m [] m
  | step {m k m' : Machine Empty} {es : List (Option Value)} (h : m.Step k) (hr : Run id k es m') :
      Run id m (m.emits k id ++ es) m'

abbrev Differ : List (Option Value) → Prop :=
  List.IsChain fun v w => Value.sameOption v w = false

theorem Differ.congr {v w : Option Value} (h : Differ (v :: es))
    (hs : ∀ u, Value.sameOption v u = Value.sameOption w u) : Differ (w :: es) := by
  cases es with
  | nil => exact .singleton _
  | cons u es =>
    obtain ⟨hu, hes⟩ := List.isChain_cons_cons.1 h
    exact List.isChain_cons_cons.2 ⟨hs u ▸ hu, hes⟩

theorem Run.differ (hr : m.Run id es m') (hid : id < m.world.trackers.next) :
    Differ ((m.world.trackers.get id).last :: es) := by
  induction hr with
  | refl => exact .singleton _
  | @step m k m' es h hr ih =>
    have hrest := ih (Nat.lt_of_lt_of_le hid h.continues.next_le)
    have hs : m.Streams k id (m.emits k id) := h.streams
    generalize m.emits k id = now at hs
    cases hs with
    | silent hsame => exact hrest.congr (hsame hid)
    | emits hlast hnew => exact List.isChain_cons_cons.2 ⟨hnew, hlast ▸ hrest⟩

theorem exists_tracker_of_track {name : String} {root : Term} {route : Route} {a : Accessor}
    {v : Value} {n : Nat}
    (h : (m.perform (.act (.tracker name (.track root route)))).2.1 = .tracker a v n) :
    ∃ id, (m.perform (.act (.tracker name (.track root route)))).1.world.tracker name = .ok id ∧
      id < (m.perform (.act (.tracker name (.track root route)))).1.world.trackers.next ∧
      ((m.perform (.act (.tracker name (.track root route)))).1.world.graph.get a v).1 =
        .ok ((m.perform
          (.act (.tracker name (.track root route)))).1.world.trackers.get id).last := by
  simp only [perform, act] at h ⊢
  split
  · next e he =>
    rw [he] at h
    obtain ⟨a', -, he⟩ := exists_of_bind he
    obtain ⟨⟨v', w⟩, -, he⟩ := exists_of_bind he
    cases he
    simp only [World.track] at h ⊢
    rcases hb : Tracker.bind w.trackers.next a' v' w.graph with ⟨e | ⟨t, es⟩, g⟩
    · rw [hb] at h; cases h
    · rw [hb] at h
      cases h
      obtain ⟨ho, -, -, hobj, harr⟩ := Tracker.exists_bind hb
      have htrail : g.trail a v = w.graph.trail a v := Graph.trail_of_eq hobj harr
      refine ⟨w.trackers.next, ?_, ?_, ?_⟩
      · simp [World.tracker, World.find, World.nameTracker]
      · exact Nat.lt_of_lt_of_eq (Nat.lt_succ_self _) (Table.next_push ..).symm
      · rw [Graph.get_eq]
        show (g.trail a v).outcome = .ok ((w.trackers.push t).get w.trackers.next).last
        rw [htrail, Table.get_push_next]; exact ho
  · next he => rw [he] at h; cases h

/--
The stream of a tracker's values. In every state of every run, whatever its listeners do, at most
one value of the tracker is being delivered, and a notification that arrives meanwhile only marks
the tracker. When the tracker emits a value, this is what its path leads to at this moment, and its
records are about the dependencies that a walk of its path meets at this moment. Whatever it finds
or fails to find in between, each value that it emits differs from the one before it, the first one
from the value that the tracker remembers, which for a new tracker is the value that its path leads
to.
-/
theorem emissions_never_repeat (hm : m.Reachable) (id : TrackerId) :
    m.stack.countP (Frame.isEmission id) ≤ 1 ∧
    (∀ o t r pending below, ∀ frame ∈ below, m.stack = .topic o t (r :: pending) :: below →
      r.listener = .tracker id → frame.isEmission id = true →
      m.next = { m with
        stack := .topic o t pending :: below
        world :=
          if (m.world.graph.registries.get o).contains r.key = true ∧
              (m.world.trackers.get id).phase ≠ .disposed then
            m.world.modifyTracker id fun t => { t with dirty := true }
          else m.world }) ∧
    (∀ m', m.Step m' → ∀ v ∈ m.emits m' id,
      let t := m'.world.trackers.get id
      (m'.world.graph.get t.accessor t.root).1 = .ok v ∧
        t.records.map (fun r => (r.target, r.topics)) =
          (m'.world.graph.walk t.accessor t.root).1.dependencies.map fun d =>
            (d.target, d.topics)) ∧
    (∀ es m', id < m.world.trackers.next → m.Run id es m' →
      Differ ((m.world.trackers.get id).last :: es)) ∧
    ∀ name root route a v n,
      let bound := m.perform (.act (.tracker name (.track root route)))
      bound.2.1 = .tracker a v n → ∃ id first, bound.1.world.tracker name = .ok id ∧
        (bound.1.world.graph.get a v).1 = .ok first ∧
        ∀ (k m' : Machine Empty) es, k.world = bound.1.world → k.Run id es m' →
        Differ (first :: es) := by
  refine ⟨countP_isEmission_le_one (hm.orderly id), ?_, ?_, fun es m' hid hr => hr.differ hid, ?_⟩
  · intro o t r pending below frame hf hs hl he
    exact next_of_notified (hm.orderly id) hs hl hf he
  · intro m' hs v hv
    have hstream : m.Streams m' id (m.emits m' id) := hs.streams
    generalize m.emits m' id = now at hstream hv
    cases hstream with
    | silent => cases hv
    | emits hlast hnew hc ho =>
      obtain rfl := List.mem_singleton.1 hv
      exact ⟨ho, Tracker.observes_iff.1 hc.observes⟩
  · intro name root route a v n bound h
    obtain ⟨i, hname, hlt, hfirst⟩ := exists_tracker_of_track h
    refine ⟨i, _, hname, hfirst, fun k m' es hw hr => ?_⟩
    have hd := hr.differ (hw ▸ hlt)
    rw [hw] at hd
    exact hd

/-- The tracker of `tracking` emits the other value of the attribute. -/
theorem emissions_never_repeat_tracking :
    let m := next^[2] (tracking.begin (.act (.edit "m" (.set "name" (.bool false)))))
    tracking.Reachable ∧ tracking.Run 0 [some (.bool false)] m ∧
      m.stack.countP (Frame.isEmission 0) = 1 ∧
      Differ [some (.bool true), some (.bool false)] := by
  intro m
  have hbegin : tracking.Step (tracking.begin (.act (.edit "m" (.set "name" (.bool false))))) :=
    .command rfl _
  have htopic : Step (tracking.begin (.act (.edit "m" (.set "name" (.bool false))))) _ :=
    .turn (List.cons_ne_nil _ _)
  have hpass : Step (tracking.begin (.act (.edit "m" (.set "name" (.bool false))))).next m :=
    .turn (List.cons_ne_nil _ _)
  have hr : tracking.Run 0 [some (.bool false)] m :=
    .step hbegin (.step htopic (.step hpass (.refl _)))
  obtain ⟨-, -, -, hdiffer, -⟩ := emissions_never_repeat reachable_tracking 0
  exact ⟨reachable_tracking, hr, rfl, hdiffer _ _ (by decide) hr⟩

end Machine
end LivePath
