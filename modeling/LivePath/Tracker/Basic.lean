import LivePath.Accessor.Subscription
import LivePath.Log

/-!
# Change trackers

A tracker observes the chain of one accessor from one root and remembers the value it found last.
Notified by any object of the chain it makes a pass: it observes the chain as it is now, evaluates
the path, and announces the value if it is not strictly equal to the last one. Being notified in the
middle of a pass only makes it dirty, which asks for one more pass.
-/

namespace LivePath

inductive Phase where
  /-- It waits for a notification. -/
  | bound
  /-- It handles one. -/
  | rebinding
  /-- It will never do anything again. -/
  | disposed
  deriving DecidableEq, Repr

/-- A live binding of an accessor to a root. -/
structure Tracker where
  root : Value
  accessor : Accessor
  /-- The value found by the last evaluation that succeeded. -/
  last : Option Value
  records : List Record
  listeners : Registry Unit ScriptId := {}
  phase : Phase := .bound
  /-- Whether it was notified since the running pass began. -/
  dirty : Bool := false
  /-- How many names refer to it. Without one it reacts no more, but finishes what it is doing. -/
  handles : Nat := 1

namespace Tracker

/-- A tracker that is not there behaves like one that was disposed. -/
instance : Inhabited Tracker :=
  ⟨{ root := .bool false, accessor := .root, last := none, records := [],
     phase := .disposed, handles := 0 }⟩

def isDisposed (t : Tracker) : Bool :=
  t.phase = .disposed

def log (t : Tracker) (level : Level) (what : String) : LogEntry :=
  ⟨level, s!"ChangeTracker(`{t.accessor.render}`) {what}"⟩

def usedAfterDispose (t : Tracker) : List LogEntry :=
  if t.isDisposed then [t.log .warn "used after dispose"] else []

def failures (t : Tracker) : Outcome → List LogEntry
  | .ok _ => []
  | .error e => [t.log .error s!"-> {e.message}"]

end Tracker

/-- A tracker after it did something, with the graph and the entries it logged. -/
structure Tracked (F : Type) where
  tracker : Tracker
  graph : Graph F
  log : List LogEntry := []

namespace Tracker
variable {F : Type} [Foreign F]

/-- Binds an accessor to a root: evaluates it, then observes its chain. -/
def bind (id : TrackerId) (accessor : Accessor) (root : Value) (g : Graph F) :
    Except AccessError (Tracker × List LogEntry) × Graph F :=
  match g.get accessor root with
  | (.error e, g) => (.error e, g)
  | (.ok last, g) =>
    match g.subscribe accessor root (.tracker id) with
    | (.error e, g) => (.error e, g)
    | (.ok records, g) =>
      let t : Tracker := { root, accessor, last, records }
      (.ok (t, [t.log .debug s!"bound, observing {records.length} objects"]), g)

/-- What the records should be, and what they are. -/
def observes (t : Tracker) (dependencies : List Dependency) : Bool :=
  t.records.map (fun r => (r.target, r.topics)) = dependencies.map (fun d => (d.target, d.topics))

/-- Walks the chain once more and compares the records with its dependencies. -/
def verify (t : Tracker) (g : Graph F) : List LogEntry × Graph F :=
  let (w, g) := g.walk t.accessor t.root
  let stopped := match w.outcome with
    | .ok _ => []
    | .error e => [t.log .debug s!"checked up to an error: {e.message}"]
  let differs :=
    if t.observes w.dependencies then []
    else [t.log .error
      s!"holds {t.records.length} records, the chain depends on {w.dependencies.length} objects"]
  (stopped ++ differs, g)

/-- Takes all registrations back and observes the chain as it is now, as far as it can be walked. -/
def rebind (id : TrackerId) (t : Tracker) (g : Graph F) : Tracked F :=
  let (released, g) := g.detachAll t.records
  let (outcome, records, g) := g.subscribeReached t.accessor t.root (.tracker id)
  let t := { t with records }
  let (verified, g) := t.verify g
  { tracker := t
    graph := g
    log := t.failures outcome ++
      t.log .trace
        s!"rebound: released {released} listeners, observing {records.length} objects" :: verified }

/-- Evaluates the path. A value found is remembered, and has to be announced if it differs from the
last one. -/
def refresh (t : Tracker) (g : Graph F) : Tracked F × Option (Option Value) :=
  let (outcome, g) := g.get t.accessor t.root
  match outcome with
  | .error _ => ({ tracker := t, graph := g, log := t.failures outcome }, none)
  | .ok value =>
    ({ tracker := { t with last := value }, graph := g },
      if Value.sameOption t.last value then none else some value)

/-- One pass of the handler: observes anew, evaluates, and tells which value has to be announced, if
any. -/
def pass (id : TrackerId) (t : Tracker) (g : Graph F) : Tracked F × Option (Option Value) :=
  -- The chain is observed anew before its value is told, so that what a listener changes in it is
  -- noticed.
  let bound := { t with phase := .rebinding, dirty := false }.rebind id g
  let (refreshed, announced) := bound.tracker.refresh bound.graph
  ({ refreshed with log := bound.log ++ refreshed.log }, announced)

/-- Ends a tracker: nothing is observed any more, and nobody listens to it. -/
def dispose (t : Tracker) (g : Graph F) : Tracked F :=
  if t.isDisposed then { tracker := t, graph := g, log := [t.log .warn "disposed twice"] }
  else
    let (released, g) := g.detachAll t.records
    { tracker := { t with phase := .disposed, records := [], listeners := t.listeners.clear }
      graph := g
      log := [t.log .debug s!"disposed, released {released} listeners"] }

end Tracker

end LivePath
