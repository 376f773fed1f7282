import LivePath.Session.Command
import LivePath.Session.Effect

/-!
# Commands on accessors and trackers

A path is read before the root it is applied to is looked up. What an access or a new tracker runs
into on its way is its answer, and is no reason to undo what was done until then.
-/

namespace LivePath

namespace World
variable {F : Type} [Foreign F]

def accessorOf (w : World F) : Route → Except Failure Accessor
  | .named name => w.accessor name
  | .text path => (Path.parse path).mapError .malformed |>.map Accessor.ofPath
  | .nodes path => .ok (.ofPath path)

def answerOf : Outcome → Answer
  | .ok v => .value v
  | .error e => .failed (.access e)

def assign (w : World F) (a : Accessor) (root v : Value) : Effect F :=
  match w.graph.set a root v with
  | (.ok (o, topics), graph) => ⟨{ w with graph }, .nothing, .topics o topics⟩
  | (.error e, graph) => ⟨{ w with graph }, .failed (.access e), .silent⟩

def access (w : World F) : AccessAction → Except Failure (Effect F)
  | .store name route => do
    let a ← w.accessorOf route
    return ⟨w.nameAccessor name a, .accessor a, .silent⟩
  | .join name route node => do
    let a := (← w.accessorOf route).join node
    return ⟨w.nameAccessor name a, .accessor a, .silent⟩
  | .get route root => do
    let a ← w.accessorOf route
    let (root, w) ← w.evaluate root
    let (outcome, graph) := w.graph.get a root
    return ⟨{ w with graph }, answerOf outcome, .silent⟩
  | .set route root v => do
    let a ← w.accessorOf route
    let (root, w) ← w.evaluate root
    let (v, w) ← w.evaluate v
    return w.assign a root v

/-- Puts a tracker and the graph back after the tracker did something, and logs its entries. -/
def retrack (w : World F) (id : TrackerId) (done : Tracked F) : World F :=
  { w with trackers := w.trackers.set id done.tracker, graph := done.graph }.logAll done.log

def track (w : World F) (name : String) (a : Accessor) (root : Value) : Effect F :=
  match Tracker.bind w.trackers.next a root w.graph with
  | (.error e, graph) => ⟨{ w with graph }, .failed (.access e), .silent⟩
  | (.ok (t, entries), graph) =>
    let bound := { w with trackers := w.trackers.push t, graph }.logAll entries
    ⟨bound.nameTracker name w.trackers.next, .tracker a root t.records.length, .silent⟩

def modifyTracker (w : World F) (id : TrackerId) (f : Tracker → Tracker) : World F :=
  { w with trackers := w.trackers.modify id f }

/-- Takes the newest meaning of a tracker name away. -/
def forgetTracker (w : World F) (name : String) : World F :=
  { w with names := { w.names with trackers := w.names.trackers.eraseP (·.1 = name) } }

/-- Evaluates the path of a tracker, whatever it found last. -/
def evaluateTracker (w : World F) (id : TrackerId) : Outcome × World F :=
  let t := w.trackers.get id
  let (outcome, graph) := w.graph.get t.accessor t.root
  (outcome, { w with graph }.logAll t.usedAfterDispose)

def operate (w : World F) (name : String) : TrackerAction → Except Failure (Effect F)
  | .track root route => do
    let a ← w.accessorOf route
    let (root, w) ← w.evaluate root
    return w.track name a root
  | .clone other => do
    let id ← w.tracker name
    let w := w.modifyTracker id fun t => { t with handles := t.handles + 1 }
    return ⟨w.nameTracker other id, .done, .silent⟩
  | .drop => do
    let id ← w.tracker name
    let w := w.modifyTracker id fun t => { t with handles := t.handles - 1 }
    return ⟨w.forgetTracker name, .done, .silent⟩
  | .get => do
    let (outcome, w) := w.evaluateTracker (← w.tracker name)
    return ⟨w, answerOf outcome, .silent⟩
  | .hasValue => do
    let (outcome, w) := w.evaluateTracker (← w.tracker name)
    return ⟨w, match outcome with
      | .ok v => .truth v.isSome
      | .error e => .failed (.access e), .silent⟩
  | .set v => do
    let t := w.trackers.get (← w.tracker name)
    let (v, w) ← w.evaluate v
    return (w.logAll t.usedAfterDispose).assign t.accessor t.root v
  | .observed => do
    return ⟨w, .number (w.trackers.get (← w.tracker name)).records.length, .silent⟩
  | .dispose => do
    let id ← w.tracker name
    return ⟨w.retrack id ((w.trackers.get id).dispose w.graph), .nothing, .silent⟩
  | .isDisposed => do
    return ⟨w, .truth (w.trackers.get (← w.tracker name)).isDisposed, .silent⟩

end World

end LivePath
