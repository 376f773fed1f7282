import LivePath.Session.Answer

/-!
# Worlds

A world is an object graph with its trackers and text dispatchers, the names by which commands refer
to them, and the events so far. Objects, accessors, trackers and subscriptions are named apart. A
name given again shadows the older entry, which lives on.
-/

namespace LivePath

abbrev DispatcherId := Nat

inductive Named where
  | array (id : ArrayId)
  | model (id : ObjectId)
  | collection (id : ObjectId)
  | foreign (id : ObjectId)
  | dispatcher (id : DispatcherId)
  deriving DecidableEq, Repr

/-- The value that refers to a named object. A foreign container passes for a model; a dispatcher is
no value. -/
def Named.value? : Named → Option Value
  | array id => some (.array id)
  | model id => some (.model id)
  | collection id => some (.collection id)
  | foreign id => some (.model id)
  | dispatcher _ => none

/-- A registration of a scripted listener, in the form needed to take it back. -/
inductive Subscription where
  | object (o : ObjectId) (key : Key)
  | dispatcher (d : DispatcherId) (key : Key)
  /-- A change listener of the tracker that had this name. -/
  | tracker (name : String) (key : Key)
  /-- The records of an accessor; none once it was taken back. -/
  | accessor (records : Option (List Record))
  /-- The record of one object; none once it was taken back. -/
  | attached (record : Option Record)
  deriving DecidableEq, Repr

/-- The key of a subscription made directly with an object or a dispatcher. -/
def Subscription.key? : Subscription → Option Key
  | object _ key => some key
  | dispatcher _ key => some key
  | _ => none

/-- Entries by name, the newest first. -/
structure Names where
  objects : List (String × Named) := []
  accessors : List (String × Accessor) := []
  trackers : List (String × TrackerId) := []
  subscriptions : List (String × Subscription) := []

/-- Changes the newest entry of a name. -/
def modifyNewest {α : Type} (name : String) (f : α → α) : List (String × α) → List (String × α)
  | [] => []
  | (n, a) :: entries =>
    if n = name then (n, f a) :: entries else (n, a) :: modifyNewest name f entries

/-- Everything that the commands of a session act on. -/
structure World (F : Type) where
  graph : Graph F := {}
  trackers : Table Tracker := {}
  dispatchers : Table (Registry Int ScriptId) := {}
  names : Names := {}
  /-- The events so far, the latest first. -/
  trace : List Event := []

namespace World
variable {F : Type} [Foreign F]

instance : Inhabited (World F) := ⟨{}⟩

def record (w : World F) (e : Event) : World F :=
  { w with trace := e :: w.trace }

def logAll (w : World F) (entries : List LogEntry) : World F :=
  { w with trace := (entries.map Event.logged).reverse ++ w.trace }

/-! ### Giving names -/

def nameObject (w : World F) (name : String) (n : Named) : World F :=
  { w with names := { w.names with objects := (name, n) :: w.names.objects } }

def nameAccessor (w : World F) (name : String) (a : Accessor) : World F :=
  { w with names := { w.names with accessors := (name, a) :: w.names.accessors } }

def nameTracker (w : World F) (name : String) (id : TrackerId) : World F :=
  { w with names := { w.names with trackers := (name, id) :: w.names.trackers } }

def nameSubscription (w : World F) (name : String) (s : Subscription) : World F :=
  { w with names := { w.names with subscriptions := (name, s) :: w.names.subscriptions } }

/-! ### Looking names up -/

/-- What a name stands for, if it is of the kind that is needed. -/
def find {α β : Type} (entries : List (String × α)) (name : String) (need : α → Option β) :
    Except Failure β :=
  match (entries.lookup name).bind need with
  | some b => .ok b
  | none => .error (.missing name)

def value (w : World F) (name : String) : Except Failure Value :=
  find w.names.objects name Named.value?

def model (w : World F) (name : String) : Except Failure ObjectId :=
  find w.names.objects name fun
    | .model o => some o
    | _ => none

def foreign (w : World F) (name : String) : Except Failure ObjectId :=
  find w.names.objects name fun
    | .foreign o => some o
    | _ => none

def fieldHolder (w : World F) (name : String) : Except Failure ObjectId :=
  find w.names.objects name fun
    | .model o => some o
    | .foreign o => some o
    | _ => none

def collection (w : World F) (name : String) : Except Failure ObjectId :=
  find w.names.objects name fun
    | .collection o => some o
    | _ => none

def observable (w : World F) (name : String) : Except Failure ObjectId :=
  find w.names.objects name fun
    | .model o => some o
    | .collection o => some o
    | .foreign o => some o
    | _ => none

def dispatcher (w : World F) (name : String) : Except Failure DispatcherId :=
  find w.names.objects name fun
    | .dispatcher d => some d
    | _ => none

def accessor (w : World F) (name : String) : Except Failure Accessor :=
  find w.names.accessors name some

def tracker (w : World F) (name : String) : Except Failure TrackerId :=
  find w.names.trackers name some

def subscription (w : World F) (name : String) : Except Failure Subscription :=
  find w.names.subscriptions name some

def nameOf? (w : World F) (n : Named) : Option String :=
  (w.names.objects.find? (·.2 = n)).map (·.1)

def nameOfValue? (w : World F) : Value → Option String
  | .array id => w.nameOf? (.array id)
  | .model id => w.nameOf? (.model id) <|> w.nameOf? (.foreign id)
  | .collection id => w.nameOf? (.collection id)
  | _ => none

def nameOfObject? (w : World F) (o : ObjectId) : Option String :=
  w.nameOfValue? (.model o) <|> w.nameOfValue? (.collection o)

/-! ### Adding objects -/

def addObject (w : World F) (object : Object F) : ObjectId × World F :=
  (w.graph.objects.next,
    { w with graph := { w.graph with objects := w.graph.objects.push object } })

def addArray (w : World F) (items : List Value) : ArrayId × World F :=
  (w.graph.arrays.next, { w with graph := { w.graph with arrays := w.graph.arrays.push items } })

end World

end LivePath
