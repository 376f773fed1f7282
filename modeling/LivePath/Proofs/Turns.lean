import LivePath.Proofs.Commands
import LivePath.Session.Run
import Mathlib.Logic.Function.Iterate

/-!
# Turns and runs

What one turn can do is listed once (`Machine.Turn`); every invariant of machines is proved along
this list. A run goes from state to state by turns and, at rest, by commands (`Machine.Step`).
Listeners need not follow the scripts that they were registered with: between any two turns the rest
of a running script may be exchanged for any other commands. So what holds in all reachable states
holds however listeners choose what to do, and in particular after all that sessions execute
(`reachable_executeAll`).
-/

namespace LivePath
variable {F : Type}

namespace Frame

/-- Nothing is left to be done with a frame. -/
def Spent : Frame F → Prop
  | script rest => rest = []
  | announce _ topics => topics = []
  | topic _ _ pending => pending = []
  | text _ _ pending => pending = []
  | change _ _ pending => pending = []
  | _ => False

/-- Of the listeners to a text or a value, the first one has had its turn. -/
inductive Advances : Frame F → Frame F → Prop
  | text (d : DispatcherId) (text : String) (r : Registration Int ScriptId) (pending) :
      Advances (.text d text (r :: pending)) (.text d text pending)
  | change (id : TrackerId) (value : Option Value) (r : Registration Unit ScriptId) (pending) :
      Advances (.change id value (r :: pending)) (.change id value pending)

end Frame

namespace Machine
variable [Foreign F] {m m' : Machine F}

/-- A turn of a machine with a frame that was on top of its stack. -/
inductive Turn (m : Machine F) : Frame F → Machine F → Prop
  | spent {frame : Frame F} (h : frame.Spent) : Turn m frame m
  | perform (c : Command F) (cs : List (Command F)) :
      Turn m (.script (c :: cs))
        ((((m.perform c).1.push (.script cs)).push (.finish (m.perform c).2.1)).notify
          (m.perform c).2.2)
  | answer (a : Answer) : Turn m (.finish a) { m with world := m.world.record (.ran a) }
  | announce (o : ObjectId) (t : Topic) (ts : List Topic) :
      Turn m (.announce o (t :: ts))
        ((m.push (.announce o ts)).push
          (.topic o t ((m.world.graph.registries.get o).select (· = t))))
  /-- The observer is not registered any more. -/
  | miss {o : ObjectId} (t : Topic) {r : Registration Topic Observer}
      (pending : List (Registration Topic Observer))
      (h : (m.world.graph.registries.get o).contains r.key = false) :
      Turn m (.topic o t (r :: pending)) (m.push (.topic o t pending))
  | hear {o : ObjectId} {t : Topic} {r : Registration Topic Observer}
      (pending : List (Registration Topic Observer)) {id : ScriptId}
      (h : r.listener = .script id) :
      Turn m (.topic o t (r :: pending)) ((m.push (.topic o t pending)).call id (.topic · t))
  | pass {o : ObjectId} {t : Topic} {r : Registration Topic Observer}
      (pending : List (Registration Topic Observer)) {id : TrackerId}
      (h : r.listener = .tracker id) (hp : (m.world.trackers.get id).phase = .bound)
      (hh : (m.world.trackers.get id).handles ≠ 0) :
      Turn m (.topic o t (r :: pending)) ((m.push (.topic o t pending)).pass id)
  /-- The tracker is in the middle of a pass. -/
  | mark {o : ObjectId} {t : Topic} {r : Registration Topic Observer}
      (pending : List (Registration Topic Observer)) {id : TrackerId}
      (h : r.listener = .tracker id) (hp : (m.world.trackers.get id).phase = .rebinding) :
      Turn m (.topic o t (r :: pending))
        { m.push (.topic o t pending) with
          world := m.world.modifyTracker id fun t => { t with dirty := true } }
  | ignore {o : ObjectId} {t : Topic} {r : Registration Topic Observer}
      (pending : List (Registration Topic Observer)) {id : TrackerId}
      (h : r.listener = .tracker id)
      (hp : (m.world.trackers.get id).phase = .disposed ∨ (m.world.trackers.get id).handles = 0) :
      Turn m (.topic o t (r :: pending)) (m.push (.topic o t pending))
  | skip {frame frame' : Frame F} (h : frame.Advances frame') : Turn m frame (m.push frame')
  | call {frame frame' : Frame F} (h : frame.Advances frame') (id : ScriptId)
      {event : String → Event} (he : ∀ label entry, event label ≠ .logged entry) :
      Turn m frame ((m.push frame').call id event)
  /-- The tracker was notified during its pass. -/
  | again {id : TrackerId} (hp : (m.world.trackers.get id).phase ≠ .disposed)
      (h : (m.world.trackers.get id).dirty = true) : Turn m (.handling id) (m.pass id)
  | settle {id : TrackerId} (hp : (m.world.trackers.get id).phase ≠ .disposed)
      (h : (m.world.trackers.get id).dirty = false) :
      Turn m (.handling id)
      { m with world := m.world.modifyTracker id fun t => { t with phase := .bound } }
  | finished {id : TrackerId} (h : (m.world.trackers.get id).phase = .disposed) :
      Turn m (.handling id) m

theorem turn_deliver (o : ObjectId) (t : Topic) (r : Registration Topic Observer)
    (pending : List (Registration Topic Observer)) :
    m.Turn (.topic o t (r :: pending)) ((m.push (.topic o t pending)).deliver o t r) := by
  unfold deliver
  split
  · split
    · next h => exact .hear pending h
    · next id h =>
      simp only [notifyTracker]
      split
      · next hp =>
        split
        · next hh => exact .ignore pending h (.inr hh)
        · next hh => exact .pass pending h hp hh
      · next hp => exact .mark pending h hp
      · next hp => exact .ignore pending h (.inl hp)
  · next h => exact .miss t pending (by simpa [push] using h)

theorem turn_endPass (id : TrackerId) : m.Turn (.handling id) (m.endPass id) := by
  simp only [endPass]
  split
  · next h => exact .finished h
  · next h =>
    split
    · next hd => exact .again h hd
    · next hd => exact .settle h (by simpa using hd)

/-- The list is complete. -/
theorem turn_turn (m : Machine F) (frame : Frame F) : m.Turn frame (m.turn frame) := by
  cases frame with
  | script cs =>
    cases cs with
    | nil => exact .spent rfl
    | cons c cs => exact .perform c cs
  | finish a => exact .answer a
  | announce o ts =>
    cases ts with
    | nil => exact .spent rfl
    | cons t ts => exact .announce o t ts
  | topic o t pending =>
    cases pending with
    | nil => exact .spent rfl
    | cons r pending => exact turn_deliver o t r pending
  | text d s pending =>
    cases pending with
    | nil => exact .spent rfl
    | cons r pending =>
      simp only [turn]
      split
      · exact .call (.text d s r pending) _ (by simp)
      · exact .skip (.text d s r pending)
  | change id v pending =>
    cases pending with
    | nil => exact .spent rfl
    | cons r pending =>
      simp only [turn]
      split
      · exact .call (.change id v r pending) _ (by simp)
      · exact .skip (.change id v r pending)
  | handling id => exact turn_endPass id

theorem exists_turn (h : m.stack ≠ []) : ∃ frame m₀, m = push m₀ frame ∧ Turn m₀ frame m.next := by
  obtain ⟨world, scripts, stack⟩ := m
  cases stack with
  | nil => exact absurd rfl h
  | cons frame rest => exact ⟨frame, ⟨world, scripts, rest⟩, rfl, turn_turn _ _⟩

/-! ### Passes -/

@[simp] theorem world_pass (m : Machine F) (id : TrackerId) :
    (m.pass id).world = m.world.retrack id ((m.world.trackers.get id).pass id m.world.graph).1 :=
  rfl

theorem stack_pass (m : Machine F) (id : TrackerId) :
    (m.pass id).stack = (((m.world.trackers.get id).pass id m.world.graph).2.elim []
      fun v => [.change id v (m.world.trackers.get id).listeners.entries]) ++
        .handling id :: m.stack := by
  have hl :=
  congrArg Tracker.listeners (Tracker.tracker_pass id (m.world.trackers.get id) m.world.graph)
  simp only [pass]
  cases ((m.world.trackers.get id).pass id m.world.graph).2 with
  | none => rfl
  | some v => simp [hl, Registry.select]

/-! ### Runs -/

def afresh (m : Machine F) : Machine F :=
  { m with world := { m.world with trace := [] } }

/-- A machine at rest is given a command. -/
def begin (m : Machine F) (c : Command F) : Machine F :=
  (m.afresh.perform c).1.notify (m.afresh.perform c).2.2

/-- A step of a run. -/
inductive Step : Machine F → Machine F → Prop
  | turn {m : Machine F} (h : m.stack ≠ []) : Step m m.next
  | command {m : Machine F} (h : m.stack = []) (c : Command F) : Step m (m.begin c)
  /-- A listener goes on with other commands. -/
  | divert {m : Machine F} {cs : List (Command F)} {rest : List (Frame F)}
      (h : m.stack = .script cs :: rest)
      (cs' : List (Command F)) : Step m { m with stack := .script cs' :: rest }

abbrev Leads : Machine F → Machine F → Prop :=
  Relation.ReflTransGen Step

/-- A run from the empty machine leads to this one. -/
def Reachable (m : Machine F) : Prop :=
  Leads {} m

theorem Reachable.leads (h : m.Reachable) (h' : m.Leads m') : m'.Reachable :=
  Relation.ReflTransGen.trans h h'

theorem Reachable.begin (h : m.Reachable) (hs : m.stack = []) (c : Command F) :
    (m.begin c).Reachable :=
  h.tail (.command hs c)

theorem reachable_empty : ({} : Machine F).Reachable :=
  .refl

theorem Reachable.rec_step {P : Machine F → Prop} (h : m.Reachable) (init : P {})
    (step : ∀ m m', m.Step m' → P m → P m') : P m := by
  induction h with
  | refl => exact init
  | tail _ hs ih => exact step _ _ hs ih

theorem next_of_rest (h : m.stack = []) : m.next = m := by
  simp only [next, h]

theorem leads_next (m : Machine F) : m.Leads m.next := by
  by_cases h : m.stack = []
  · rw [next_of_rest h]
  · exact .single (.turn h)

theorem leads_iterate_next (m : Machine F) (n : Nat) : m.Leads (next^[n] m) := by
  induction n generalizing m with
  | zero => exact .refl
  | succ n ih => exact m.leads_next.trans (ih m.next)

theorem exists_run_eq (m : Machine F) : ∃ n, m.run = next^[n] m := by
  induction m using run.induct with
  | case1 m h => exact ⟨0, by rw [run, dif_pos h]; rfl⟩
  | case2 m h ih =>
    obtain ⟨n, hn⟩ := ih
    exact ⟨n + 1, by rw [run, dif_neg h, hn]; rfl⟩

theorem leads_run (m : Machine F) : m.Leads m.run := by
  obtain ⟨n, hn⟩ := m.exists_run_eq
  rw [hn]
  exact m.leads_iterate_next n

theorem stack_run (m : Machine F) : m.run.stack = [] := by
  induction m using run.induct with
  | case1 m h => rw [run, dif_pos h]; exact h
  | case2 m h ih => rw [run, dif_neg h]; exact ih

theorem leads_execute (h : m.stack = []) (c : Command F) : m.Leads (m.execute c).2 :=
  .head (.command h c) (leads_run _)

theorem reachable_executeAll (cs : List (Command F)) (hm : m.Reachable) (hs : m.stack = []) :
    (m.executeAll cs).2.Reachable ∧ (m.executeAll cs).2.stack = [] := by
  induction cs generalizing m with
  | nil => exact ⟨hm, hs⟩
  | cons c cs ih => exact ih (hm.leads (leads_execute hs c)) (stack_run _)

/-- A model with one attribute, and a tracker on it. -/
def tracking : Machine Empty :=
  (({} : Machine Empty).begin (.act (.create "m" (.model [("name", .bool true)])))).begin
    (.act (.tracker "t" (.track (.reference "m") (.nodes ⟨[⟨.attr "name", "name", 0⟩]⟩))))

theorem reachable_tracking : tracking.Reachable :=
  (reachable_empty.begin rfl _).begin rfl _

end Machine
end LivePath
