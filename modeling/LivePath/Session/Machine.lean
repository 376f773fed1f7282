import LivePath.Session.Listening
import LivePath.Session.Objects

/-!
# Delivering announcements

A command first does all that it does at once. What it leaves to be announced is worked off from a
stack of frames, one small turn after the other: listeners are called, their scripts run further
commands, and what these announce goes on top. So announcements nest to any depth, and yet each turn
is a plain function of a state.

An announcement goes to the listeners that were registered when it began, in the order of their
registration, leaving out those that were taken back before their turn.
-/

namespace LivePath

/-- A piece of work that has begun. -/
inductive Frame (F : Type) where
  /-- A listener runs the rest of its script. -/
  | script (rest : List (Command F))
  /-- A command of a script is over, with its announcements. -/
  | finish (answer : Answer)
  /-- An object announces one topic after the other. -/
  | announce (source : ObjectId) (topics : List Topic)
  /-- A topic is delivered to the observers that are left. -/
  | topic (source : ObjectId) (topic : Topic) (pending : List (Registration Topic Observer))
  /-- A text is delivered to the listeners that are left. -/
  | text (source : DispatcherId) (text : String) (pending : List (Registration Int ScriptId))
  /-- The value of a tracker is delivered to the listeners that are left. -/
  | change (source : TrackerId) (value : Option Value) (pending : List (Registration Unit ScriptId))
  /-- A tracker made a pass, which is over when all above is done. -/
  | handling (id : TrackerId)

/-- A world, the listeners' scripts, and the work that has begun, the innermost first. -/
structure Machine (F : Type) where
  world : World F := {}
  scripts : Table (Script F) := {}
  stack : List (Frame F) := []

namespace Machine
variable {F : Type} [Foreign F]

instance : Inhabited (Machine F) := ⟨{}⟩

def push (m : Machine F) (frame : Frame F) : Machine F :=
  { m with stack := frame :: m.stack }

def notify (m : Machine F) : Notice → Machine F
  | .silent => m
  | .topics o topics => m.push (.announce o topics)
  | .text d text tags =>
    m.push (.text d text ((m.world.dispatchers.get d).select fun tag => tags.all (tag ∈ ·)))

/-- The effect of an action, if it does not fail. -/
def effectOf (w : World F) : Action F → Except Failure (Effect F)
  | .create name blueprint => w.create name blueprint
  | .ask question => (w.ask question).map fun (w, answer) => ⟨w, answer, .silent⟩
  | .edit on edit => w.edit on edit
  | .fire on topic => (w.foreign on).map fun o => ⟨w, .nothing, .topics o [topic]⟩
  | .clear on => (w.clear on).map fun (w, answer) => ⟨w, answer, .silent⟩
  | .emit on text tags => (w.dispatcher on).map fun d => ⟨w, .nothing, .text d text tags⟩
  | .access action => w.access action
  | .tracker name action => w.operate name action
  | .off label => (w.off label).map fun (w, answer) => ⟨w, answer, .silent⟩
  | .unknown text => .error (.unknown text)

/-- Carries out an action. One that fails does nothing but fail. -/
def act (m : Machine F) (a : Action F) : Machine F × Answer × Notice :=
  match effectOf m.world a with
  | .ok e => ({ m with world := e.world }, e.answer, e.notice)
  | .error f => (m, .failed f, .silent)

/-- Registers a listener under the number of its script. -/
def listen (m : Machine F) (label : String) (source : Source) (times : Nat)
    (commands : List (Command F)) : Machine F × Answer × Notice :=
  let scripts := m.scripts.push { label, times, commands }
  match m.world.listen label m.scripts.next source with
  | .ok (world, answer) => ({ m with world, scripts }, answer, .silent)
  | .error f => ({ m with scripts }, .failed f, .silent)

/-- Carries out a command, and tells its answer and what is left to be announced. -/
def perform (m : Machine F) : Command F → Machine F × Answer × Notice
  | .act action => m.act action
  | .listen label source times commands => m.listen label source times commands

/-- Calls a scripted listener: its event is recorded, and its script begins unless it has run often
enough. -/
def call (m : Machine F) (id : ScriptId) (event : String → Event) : Machine F :=
  let script := m.scripts.get id
  -- The run is counted before it begins, so that a nested call sees what is left.
  { world := m.world.record (event script.label)
    scripts := m.scripts.set id { script with times := script.times - 1 }
    stack := .script (if script.times = 0 then [] else script.commands) :: m.stack }

/-- Lets a tracker make a pass. What it finds changed is delivered before the pass is over. -/
def pass (m : Machine F) (id : TrackerId) : Machine F :=
  let (done, announced) := (m.world.trackers.get id).pass id m.world.graph
  let deliveries := match announced with
    | none => []
    | some value => [.change id value (done.tracker.listeners.select fun _ => true)]
  { m with world := m.world.retrack id done, stack := deliveries ++ .handling id :: m.stack }

/-- Notifies a tracker: it makes a pass, or if it is in the middle of one it is to make another. -/
def notifyTracker (m : Machine F) (id : TrackerId) : Machine F :=
  let t := m.world.trackers.get id
  match t.phase with
  | .bound => if t.handles = 0 then m else m.pass id
  | .rebinding => { m with world := m.world.modifyTracker id fun t => { t with dirty := true } }
  | .disposed => m

/-- Ends a pass. A tracker that was notified meanwhile makes another one, unless it was disposed. -/
def endPass (m : Machine F) (id : TrackerId) : Machine F :=
  let t := m.world.trackers.get id
  match t.phase with
  | .disposed => m
  | _ =>
    if t.dirty then m.pass id
    else { m with world := m.world.modifyTracker id fun t => { t with phase := .bound } }

/-- Delivers a topic to one observer, if it is still registered. -/
def deliver (m : Machine F) (o : ObjectId) (topic : Topic) (r : Registration Topic Observer) :
    Machine F :=
  if (m.world.graph.registries.get o).contains r.key then
    match r.listener with
    | .script id => m.call id (.topic · topic)
    | .tracker id => m.notifyTracker id
  else m

def turn (m : Machine F) : Frame F → Machine F
  | .script [] => m
  | .script (c :: rest) =>
    let (after, answer, notice) := m.perform c
    -- The command ends only when all that it announces has been delivered.
    ((after.push (.script rest)).push (.finish answer)).notify notice
  | .finish answer => { m with world := m.world.record (.ran answer) }
  | .announce _ [] => m
  | .announce o (topic :: topics) =>
    let observers := (m.world.graph.registries.get o).select (· = topic)
    (m.push (.announce o topics)).push (.topic o topic observers)
  | .topic _ _ [] => m
  | .topic o topic (r :: pending) => (m.push (.topic o topic pending)).deliver o topic r
  | .text _ _ [] => m
  | .text d text (r :: pending) =>
    let below := m.push (.text d text pending)
    if (m.world.dispatchers.get d).contains r.key then below.call r.listener (.text · text)
    else below
  | .change _ _ [] => m
  | .change id value (r :: pending) =>
    let below := m.push (.change id value pending)
    if (m.world.trackers.get id).listeners.contains r.key then
      below.call r.listener (.change · value)
    else below
  | .handling id => m.endPass id

end Machine

end LivePath
