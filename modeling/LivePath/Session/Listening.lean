import LivePath.Session.Tracking

/-!
# Commands on listeners

A scripted listener is registered with an object, with several topics of one, with a dispatcher,
with all that an accessor depends on, or with a tracker. The subscription of its label keeps what is
needed to take it back.
-/

namespace LivePath

namespace World
variable {F : Type} [Foreign F]

def modifyDispatcher (w : World F) (d : DispatcherId)
    (f : Registry Int ScriptId → Registry Int ScriptId) : World F :=
  { w with dispatchers := w.dispatchers.modify d f }

/-- Registers the listener `script` with a source. -/
def listen (w : World F) (label : String) (script : ScriptId) :
    Source → Except Failure (World F × Answer)
  | .topic on topic => do
    let o ← w.observable on
    let key := w.graph.nextKey o
    let w := { w with graph := w.graph.observe o topic (.script script) }
    return (w.nameSubscription label (.object o key), .done)
  | .topics on topics => do
    let o ← w.observable on
    let (record, graph) := w.graph.attach o topics (.script script)
    return ({ w with graph }.nameSubscription label (.attached (some record)), .attached record)
  | .dispatcher on tag => do
    let d ← w.dispatcher on
    let key := (w.dispatchers.get d).nextKey
    let w := w.modifyDispatcher d (·.insert tag script)
    return (w.nameSubscription label (.dispatcher d key), .done)
  | .accessor route root => do
    let a ← w.accessorOf route
    let (root, w) ← w.evaluate root
    match w.graph.subscribe a root (.script script) with
    | (.error e, graph) => return ({ w with graph }, .failed (.access e))
    | (.ok records, graph) =>
      return ({ w with graph }.nameSubscription label (.accessor (some records)),
        .subscribed records)
  | .tracker on => do
    let id ← w.tracker on
    let t := w.trackers.get id
    let w := (w.logAll t.usedAfterDispose).modifyTracker id fun t =>
      { t with listeners := t.listeners.insert () script }
    return (w.nameSubscription label (.tracker on t.listeners.nextKey), .done)

/-- Changes the newest subscription of a label. -/
def setSubscription (w : World F) (label : String) (s : Subscription) : World F :=
  { w with names := { w.names with
      subscriptions := modifyNewest label (fun _ => s) w.names.subscriptions } }

/-- Takes the newest subscription of a label back. -/
def off (w : World F) (label : String) : Except Failure (World F × Answer) := do
  match ← w.subscription label with
  | .object o key =>
    let found := (w.graph.registries.get o).contains key
    return ({ w with graph := w.graph.unobserve o key }, .truth found)
  | .dispatcher d key =>
    return (w.modifyDispatcher d (·.erase key), .truth ((w.dispatchers.get d).contains key))
  | .tracker name key =>
    let id ← w.tracker name
    let found := (w.trackers.get id).listeners.contains key
    return (w.modifyTracker id fun t => { t with listeners := t.listeners.erase key }, .truth found)
  | .accessor records =>
    let (count, graph) := w.graph.detachAll (records.getD [])
    return ({ w with graph }.setSubscription label (.accessor none), .number count)
  | .attached none => return (w, .nothing)
  | .attached (some record) =>
    let (count, graph) := w.graph.detach record
    return ({ w with graph }.setSubscription label (.attached none), .number count)

/-- Removes all listeners of a dispatcher. -/
def clear (w : World F) (on : String) : Except Failure (World F × Answer) := do
  return (w.modifyDispatcher (← w.dispatcher on) Registry.clear, .nothing)

end World

end LivePath
