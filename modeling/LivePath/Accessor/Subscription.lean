import LivePath.Accessor.Walk

/-!
# Subscriptions

To observe what an accessor addresses is to observe every object that its walk depends on. A record
keeps the keys under which one object was observed, so that exactly these registrations can be taken
back.
-/

namespace LivePath

/-- An observed object, with the topics it was observed for and the keys of the registrations. -/
structure Record where
  target : ObjectId
  entries : List (Topic × Key)
  deriving DecidableEq, Repr

def Record.topics (r : Record) : List Topic :=
  r.entries.map (·.1)

namespace Graph
variable {F : Type} [Foreign F]

def nextKey (g : Graph F) (o : ObjectId) : Key :=
  (g.registries.get o).nextKey

def observeEach (g : Graph F) (o : ObjectId) (observer : Observer) :
    List Topic → List (Topic × Key) × Graph F
  | [] => ([], g)
  | topic :: topics =>
    let (entries, after) := (g.observe o topic observer).observeEach o observer topics
    ((topic, g.nextKey o) :: entries, after)

def attach (g : Graph F) (o : ObjectId) (topics : List Topic) (observer : Observer) :
    Record × Graph F :=
  let (entries, g) := g.observeEach o observer topics
  ({ target := o, entries }, g)

def attachAll (g : Graph F) (observer : Observer) : List Dependency → List Record × Graph F
  | [] => ([], g)
  | d :: ds =>
    let (record, g) := g.attach d.target d.topics observer
    let (records, g) := g.attachAll observer ds
    (record :: records, g)

/-- Takes back registrations on one object and counts those that were still there. -/
def unobserveEach (g : Graph F) (o : ObjectId) : List (Topic × Key) → Nat × Graph F
  | [] => (0, g)
  | (_, key) :: entries =>
    let found := if (g.registries.get o).contains key then 1 else 0
    let (count, after) := (g.unobserve o key).unobserveEach o entries
    (found + count, after)

def detach (g : Graph F) (r : Record) : Nat × Graph F :=
  g.unobserveEach r.target r.entries

def detachAll (g : Graph F) : List Record → Nat × Graph F
  | [] => (0, g)
  | r :: rs =>
    let (count, g) := g.detach r
    let (further, g) := g.detachAll rs
    (count + further, g)

/-- Observes what the walk of an accessor depends on, as far as it comes. -/
def subscribeReached (g : Graph F) (a : Accessor) (root : Value) (observer : Observer) :
    Outcome × List Record × Graph F :=
  let (w, g) := g.walk a root
  let (records, g) := g.attachAll observer w.dependencies
  (w.outcome, records, g)

/-- Observes what an accessor addresses. If its walk fails, nothing stays observed. -/
def subscribe (g : Graph F) (a : Accessor) (root : Value) (observer : Observer) :
    Except AccessError (List Record) × Graph F :=
  let (outcome, records, g) := g.subscribeReached a root observer
  match outcome with
  | .ok _ => (.ok records, g)
  | .error e => (.error e, (g.detachAll records).2)

end Graph

end LivePath
