import LivePath.Session.Machine

/-!
# Why a machine comes to rest

Each turn lowers the rank of a machine, six numbers that are compared from left to right: the
commands still to be carried out, counting those that listeners hold in store; the topics still to
be announced; the observers that topics are still to be delivered to; the passes that trackers still
owe; the listeners still to be called with a text or a value; and the frames.

The order of the six says what can bring about what. A command can do anything. Announcing a topic
makes deliveries. A delivery can oblige a tracker to make a pass. A pass has a value delivered, but
notifies no tracker by itself: for that a listener has to carry out a command.
-/

namespace LivePath

variable {F : Type}

mutual

/-- The commands in a command, counting itself and those that it will have a listener run. -/
def Command.weight : Command F → Nat
  | .act _ => 1
  | .listen _ _ times commands => times * scriptWeight commands + 1

def scriptWeight : List (Command F) → Nat
  | [] => 0
  | c :: cs => c.weight + scriptWeight cs

end

def Script.weight (s : Script F) : Nat :=
  s.times * scriptWeight s.commands

def total {α : Type} (f : α → Nat) : List α → Nat
  | [] => 0
  | x :: xs => f x + total f xs

namespace Frame

/-- The commands in a frame. -/
def weight : Frame F → Nat
  | script rest => scriptWeight rest
  | _ => 0

/-- The topics still to be announced. -/
def topics : Frame F → Nat
  | announce _ topics => topics.length
  | _ => 0

/-- The observers still to be told. -/
def deliveries : Frame F → Nat
  | topic _ _ pending => pending.length
  | _ => 0

/-- Whether the frame is a pass behind which another is due. -/
def owes (trackers : Table Tracker) : Frame F → Nat
  | handling id => if (trackers.get id).dirty then 1 else 0
  | _ => 0

/-- The listeners still to be called with a text or a value. -/
def calls : Frame F → Nat
  | text _ _ pending => pending.length
  | change _ _ pending => pending.length
  | _ => 0

end Frame

namespace Machine

/-- The commands still to be carried out. -/
def weight (m : Machine F) : Nat :=
  total Frame.weight m.stack + total Script.weight m.scripts.entries

def rank (m : Machine F) : Nat × Nat × Nat × Nat × Nat × Nat :=
  (m.weight, total Frame.topics m.stack, total Frame.deliveries m.stack,
    total (Frame.owes m.world.trackers) m.stack, total Frame.calls m.stack, m.stack.length)

end Machine

@[simp] theorem total_nil {α : Type} (f : α → Nat) : total f [] = 0 := rfl

@[simp] theorem total_cons {α : Type} (f : α → Nat) (x : α) (xs : List α) :
    total f (x :: xs) = f x + total f xs :=
  rfl

@[simp] theorem total_append {α : Type} (f : α → Nat) (xs ys : List α) :
    total f (xs ++ ys) = total f xs + total f ys := by
  induction xs with
  | nil => simp
  | cons x xs ih => simp [ih, Nat.add_assoc]

theorem total_le {α : Type} {f g : α → Nat} (h : ∀ x, f x ≤ g x) (xs : List α) :
    total f xs ≤ total g xs := by
  induction xs with
  | nil => exact Nat.le_refl _
  | cons x xs ih => simpa using Nat.add_le_add (h x) ih

theorem total_place {α : Type} [Inhabited α] (f : α → Nat) (h : f default = 0) (a : α) (i : Nat)
    (xs : List α) :
    total f (Table.place a i xs) + f (xs.getD i default) = total f xs + f a := by
  induction i generalizing xs with
  | zero => cases xs <;> simp [Table.place, h]; omega
  | succ i ih =>
    cases xs with
    | nil => simpa [Table.place, h] using ih []
    | cons x xs =>
      have := ih xs
      simp only [Table.place, total_cons, List.getD_cons_succ]
      omega

namespace Machine

/-- Lowering one of the six numbers, with none of those before it raised, lowers the rank. -/
theorem rank_lt_of {m n : Machine F} (hw : n.weight ≤ m.weight)
    (h : n.weight < m.weight ∨ total Frame.topics n.stack ≤ total Frame.topics m.stack ∧
      (total Frame.topics n.stack < total Frame.topics m.stack ∨
      total Frame.deliveries n.stack ≤ total Frame.deliveries m.stack ∧
      (total Frame.deliveries n.stack < total Frame.deliveries m.stack ∨
      total (Frame.owes n.world.trackers) n.stack ≤ total (Frame.owes m.world.trackers) m.stack ∧
      (total (Frame.owes n.world.trackers) n.stack < total (Frame.owes m.world.trackers) m.stack ∨
      total Frame.calls n.stack ≤ total Frame.calls m.stack ∧
      (total Frame.calls n.stack < total Frame.calls m.stack ∨
      n.stack.length < m.stack.length))))) :
    WellFoundedRelation.rel n.rank m.rank := by
  simp only [WellFoundedRelation.rel, rank, Prod.lex_def, InvImage, sizeOf_nat]
  omega

@[simp] theorem weight_push (m : Machine F) (f : Frame F) :
    (m.push f).weight = m.weight + f.weight := by
  simp [push, weight]; omega

@[simp] theorem weight_call (m : Machine F) (id : ScriptId) (event : String → Event) :
    (m.call id event).weight = m.weight := by
  have h := total_place Script.weight (by simp [Script.weight, default])
    { m.scripts.get id with times := (m.scripts.get id).times - 1 } id m.scripts.entries
  have hs : (m.scripts.get id).weight =
      scriptWeight (if (m.scripts.get id).times = 0 then [] else (m.scripts.get id).commands) +
        Script.weight { m.scripts.get id with times := (m.scripts.get id).times - 1 } := by
    obtain ⟨label, times, commands⟩ := m.scripts.get id
    cases times with
    | zero => simp [Script.weight, scriptWeight]
    | succ n => simp [Script.weight, Nat.succ_mul, Nat.add_comm]
  simp only [call, weight, total_cons, Frame.weight, Table.set]
  simp only [Table.get] at h hs ⊢
  omega

@[simp] theorem weight_notify (m : Machine F) (n : Notice) : (m.notify n).weight = m.weight := by
  cases n <;> simp [notify, Frame.weight]

theorem owes_call (m : Machine F) (id : ScriptId) (event : String → Event) :
    total (Frame.owes (m.call id event).world.trackers) (m.call id event).stack =
      total (Frame.owes m.world.trackers) m.stack := by
  simp [call, World.record, Frame.owes]

variable [Foreign F]

theorem weight_act (m : Machine F) (a : Action F) : (m.act a).1.weight = m.weight := by
  unfold act; split <;> rfl

theorem weight_listen (m : Machine F) (label : String) (source : Source) (times : Nat)
    (commands : List (Command F)) :
    (m.listen label source times commands).1.weight = m.weight + times * scriptWeight commands := by
  unfold listen; split <;> simp [weight, Table.push, Script.weight] <;> omega

theorem weight_perform_lt (m : Machine F) (c : Command F) :
    (m.perform c).1.weight < m.weight + c.weight := by
  cases c with
  | act action =>
    show (m.act action).1.weight < m.weight + 1
    rw [weight_act]; omega
  | listen label source times commands =>
    show (m.listen label source times commands).1.weight < m.weight +
      (times * scriptWeight commands + 1)
    rw [weight_listen]; omega

@[simp] theorem weight_pass (m : Machine F) (id : TrackerId) : (m.pass id).weight = m.weight := by
  simp only [pass]
  split <;> simp [weight, Frame.weight]

@[simp] theorem weight_notifyTracker (m : Machine F) (id : TrackerId) :
    (m.notifyTracker id).weight = m.weight := by
  simp only [notifyTracker]
  split
  · split
    · rfl
    · exact m.weight_pass id
  · rfl
  · rfl

@[simp] theorem weight_endPass (m : Machine F) (id : TrackerId) :
    (m.endPass id).weight = m.weight := by
  simp only [endPass]
  split
  · rfl
  · split
    · exact m.weight_pass id
    · rfl

theorem weight_deliver (m : Machine F) (o : ObjectId) (topic : Topic)
    (r : Registration Topic Observer) :
    (m.deliver o topic r).weight = m.weight := by
  unfold deliver
  split
  · split <;> simp
  · rfl

theorem topics_pass (m : Machine F) (id : TrackerId) :
    total Frame.topics (m.pass id).stack = total Frame.topics m.stack := by
  simp only [pass]
  split <;> simp [Frame.topics]

theorem deliveries_pass (m : Machine F) (id : TrackerId) :
    total Frame.deliveries (m.pass id).stack = total Frame.deliveries m.stack := by
  simp only [pass]
  split <;> simp [Frame.deliveries]

theorem dirty_pass (id : TrackerId) (t : Tracker) (g : Graph F) :
    (t.pass id g).1.tracker.dirty = false := by
  simp only [Tracker.pass, Tracker.refresh, Tracker.rebind]
  split <;> rfl

/-- A pass leaves no pass due for its tracker, and owes nothing on behalf of the others. -/
theorem owes_pass (m : Machine F) (id : TrackerId) :
    total (Frame.owes (m.pass id).world.trackers) (m.pass id).stack ≤
      total (Frame.owes m.world.trackers) m.stack := by
  have htrackers : (m.pass id).world.trackers =
      m.world.trackers.set id ((m.world.trackers.get id).pass id m.world.graph).1.tracker := by
    simp [pass, World.retrack, World.logAll]
  have hle : ∀ f : Frame F, Frame.owes (m.pass id).world.trackers f ≤
      Frame.owes m.world.trackers f := by
    intro f
    cases f <;> simp only [Frame.owes, Nat.le_refl]
    next j =>
    rw [htrackers, Table.get_set]
    by_cases hj : j = id
    · simp [hj, dirty_pass]
    · simp [hj]
  have hself : Frame.owes (m.pass id).world.trackers (.handling id : Frame F) = 0 := by
    simp [Frame.owes, htrackers, dirty_pass]
  have hstack := total_le hle m.stack
  generalize (m.pass id).world.trackers = trackers at hself hstack ⊢
  simp only [pass]
  split <;> simp [hself, hstack]
  simpa [Frame.owes] using hstack

theorem topics_deliver (m : Machine F) (o : ObjectId) (topic : Topic)
    (r : Registration Topic Observer) :
    total Frame.topics (m.deliver o topic r).stack = total Frame.topics m.stack := by
  unfold deliver
  split
  · split
    · simp [call, Frame.topics]
    · simp only [notifyTracker]
      split
      · split
        · rfl
        · exact topics_pass ..
      · rfl
      · rfl
  · rfl

theorem deliveries_deliver (m : Machine F) (o : ObjectId) (topic : Topic)
    (r : Registration Topic Observer) :
    total Frame.deliveries (m.deliver o topic r).stack = total Frame.deliveries m.stack := by
  unfold deliver
  split
  · split
    · simp [call, Frame.deliveries]
    · simp only [notifyTracker]
      split
      · split
        · rfl
        · exact deliveries_pass ..
      · rfl
      · rfl
  · rfl

theorem weight_turn_script (m : Machine F) (c : Command F) (cs : List (Command F)) :
    (m.turn (.script (c :: cs))).weight < (Frame.script (c :: cs)).weight + m.weight := by
  have := m.weight_perform_lt c
  simp only [turn, weight_notify, weight_push, Frame.weight, scriptWeight]
  omega

theorem weight_turn_le (m : Machine F) (frame : Frame F) :
    (m.turn frame).weight ≤ frame.weight + m.weight := by
  cases frame with
  | script cs =>
    cases cs with
    | nil => simp [turn]
    | cons c cs => exact Nat.le_of_lt (m.weight_turn_script c cs)
  | finish answer => simp [turn, weight]
  | announce o topics => cases topics <;> simp [turn, Frame.weight]
  | topic o topic pending => cases pending <;> simp [turn, weight_deliver, Frame.weight]
  | text d text pending =>
    cases pending
    · simp [turn]
    · simp only [turn]; split <;> simp [Frame.weight]
  | change id value pending =>
    cases pending
    · simp [turn]
    · simp only [turn]; split <;> simp [Frame.weight]
  | handling id => simp [turn]

theorem owes_endPass (m : Machine F) (id : TrackerId)
    (h : (m.world.trackers.get id).dirty = false) :
    total (Frame.owes (m.endPass id).world.trackers) (m.endPass id).stack ≤
      total (Frame.owes m.world.trackers) m.stack := by
  simp only [endPass]
  split
  · exact Nat.le_refl _
  · rw [if_neg (by simp [h])]
    refine total_le (fun f => ?_) m.stack
    cases f <;> simp only [Frame.owes, Nat.le_refl]
    next j =>
    simp only [World.modifyTracker, Table.modify, Table.get_set]
    by_cases hj : j = id
    · simp [hj, h]
    · simp [hj]

theorem rank_turn_lt (m : Machine F) (frame : Frame F) :
    WellFoundedRelation.rel (m.turn frame).rank (m.push frame).rank := by
  apply rank_lt_of
  · have := m.weight_turn_le frame
    rw [weight_push]; omega
  · rw [weight_push]
    simp only [push, total_cons, List.length_cons]
    cases frame with
    | script cs =>
      cases cs with
      | nil => right; simp [turn, Frame.topics, Frame.deliveries, Frame.owes, Frame.calls]
      | cons c cs =>
        left
        have := m.weight_turn_script c cs
        omega
    | finish answer =>
      right; simp [turn, World.record, Frame.topics, Frame.deliveries, Frame.owes, Frame.calls]
    | announce o topics =>
      right
      cases topics with
      | nil => simp [turn, Frame.topics, Frame.deliveries, Frame.owes, Frame.calls]
      | cons topic topics => simp [turn, push, Frame.topics]
    | topic o topic pending =>
      right
      cases pending with
      | nil => simp [turn, Frame.topics, Frame.deliveries, Frame.owes, Frame.calls]
      | cons r pending =>
        simp only [turn, topics_deliver, deliveries_deliver, push, total_cons, Frame.topics,
          Frame.deliveries, List.length_cons]
        omega
    | text d text pending =>
      right
      cases pending with
      | nil => simp [turn, Frame.topics, Frame.deliveries, Frame.owes, Frame.calls]
      | cons r pending =>
        simp only [turn]
        split
        · simp [owes_call]
          simp [call, push, Frame.topics, Frame.deliveries, Frame.owes, Frame.calls]
        · simp [push, Frame.topics, Frame.deliveries, Frame.owes, Frame.calls]
    | change id value pending =>
      right
      cases pending with
      | nil => simp [turn, Frame.topics, Frame.deliveries, Frame.owes, Frame.calls]
      | cons r pending =>
        simp only [turn]
        split
        · simp [owes_call]
          simp [call, push, Frame.topics, Frame.deliveries, Frame.owes, Frame.calls]
        · simp [push, Frame.topics, Frame.deliveries, Frame.owes, Frame.calls]
    | handling id =>
      right
      simp only [turn, Frame.topics, Frame.deliveries, Frame.calls, Frame.owes]
      by_cases hd : (m.world.trackers.get id).dirty = true
      · simp only [endPass]
        split
        · simp
        · simp only [hd, if_true, topics_pass, deliveries_pass]
          have := m.owes_pass id
          omega
      · have howes := m.owes_endPass id (by simpa using hd)
        have hstack : (m.endPass id).stack = m.stack := by
          simp only [endPass]
          split
          · rfl
          · rw [if_neg hd]
        rw [hstack] at howes ⊢
        omega

/-- A machine after the frame on top of its stack had its turn. -/
def next (m : Machine F) : Machine F :=
  match m.stack with
  | [] => m
  | frame :: rest => { m with stack := rest }.turn frame

theorem rank_next_lt (m : Machine F) (h : m.stack ≠ []) :
    WellFoundedRelation.rel m.next.rank m.rank := by
  obtain ⟨world, scripts, stack⟩ := m
  cases stack with
  | nil => exact absurd rfl h
  | cons frame rest => exact rank_turn_lt ⟨world, scripts, rest⟩ frame

end Machine

end LivePath
