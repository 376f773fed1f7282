import LivePath.Graph.Fields
import LivePath.Registry
import LivePath.Table
import LivePath.Topic

/-!
# The object graph

Objects refer to each other through values, in any shape, cycles included. Each has a registry of
the observers that want to hear of its changes. Besides models and collections there are foreign
containers: they answer reads by rules of their own, which a read may change, but they too announce
themselves through a registry only, and never while they are read.
-/

namespace LivePath

/-- A container with rules of its own. -/
class Foreign (F : Type) where
  /-- Answers a read of a field. -/
  field : F → String → Option Value × F
  /-- Answers a read of an item. -/
  item : F → Nat → Option Value × F
  /-- Takes an assignment and tells what is to be announced. -/
  assign : F → String → Value → F × List Topic
  /-- Takes the removal of a field and tells what is to be announced. -/
  unassign : F → String → F × List Topic

/-- A graph of models, collections and arrays alone has no foreign containers. -/
instance : Foreign Empty where
  field := Empty.elim
  item := Empty.elim
  assign := Empty.elim
  unassign := Empty.elim

/-- What a sorted collection sorts by. -/
inductive Ranking where
  | byField (name : String)
  | byValue (order : Value → Value → Ordering)

namespace Ranking

/-- By value, smaller items first. Items that do not compare count as equal. -/
def ascending : Ranking :=
  .byValue fun v w => (v.compare? w).getD .eq

def descending : Ranking :=
  .byValue fun v w => (w.compare? v).getD .eq

end Ranking

inductive Object (F : Type) where
  | model (fields : Fields)
  /-- A sequence of items, kept sorted if there is a ranking. -/
  | collection (items : List Value) (ranking : Option Ranking)
  | foreign (state : F)

instance {F : Type} : Inhabited (Object F) := ⟨.model {}⟩

abbrev ScriptId := Nat

abbrev TrackerId := Nat

/-- Who hears an announcement of an object: a scripted listener or a tracker. -/
inductive Observer where
  | script (id : ScriptId)
  | tracker (id : TrackerId)
  deriving DecidableEq, Repr

/-- Arrays, objects, and for each object the observers of its topics. -/
structure Graph (F : Type) where
  arrays : Table (List Value) := {}
  objects : Table (Object F) := {}
  registries : Table (Registry Topic Observer) := {}

namespace Graph
variable {F : Type} [Foreign F]

instance : Inhabited (Graph F) := ⟨{}⟩

def readField (g : Graph F) (o : ObjectId) (name : String) : Option Value × Graph F :=
  match g.objects.get o with
  | .model fields => (fields.get? name, g)
  | .collection .. => (none, g)
  | .foreign state =>
    let (v, state) := Foreign.field state name
    (v, { g with objects := g.objects.set o (.foreign state) })

def readItem (g : Graph F) (o : ObjectId) (index : Nat) : Option Value × Graph F :=
  match g.objects.get o with
  | .model _ => (none, g)
  | .collection items _ => (items[index]?, g)
  | .foreign state =>
    let (v, state) := Foreign.item state index
    (v, { g with objects := g.objects.set o (.foreign state) })

def readSlot (g : Graph F) (a : ArrayId) (index : Nat) : Option Value :=
  (g.arrays.get a)[index]?

/-- The items of a collection; other objects have none. -/
def items (g : Graph F) (o : ObjectId) : List Value :=
  match g.objects.get o with
  | .collection items _ => items
  | _ => []

def isSorted (g : Graph F) (o : ObjectId) : Bool :=
  match g.objects.get o with
  | .collection _ ranking => ranking.isSome
  | _ => false

/-- The field by which an item is sorted. Only models have fields, and looking at one is a read like
any other. -/
def readKey (name : String) : Value → StateM (Graph F) (Option Value)
  | .model o => modifyGet (·.readField o name)
  | _ => return none

/-- The order of two items; both fields are read, that of the first item first. Items without the
field, or with fields that do not compare, count as equal. -/
def compareItems : Ranking → Value → Value → StateM (Graph F) Ordering
  | .byValue order, v, w => return order v w
  | .byField name, v, w => do
    match ← readKey name v, ← readKey name w with
    | some a, some b => return (a.compare? b).getD .eq
    | _, _ => return .eq

def modifyRegistry (g : Graph F) (o : ObjectId)
    (f : Registry Topic Observer → Registry Topic Observer) : Graph F :=
  { g with registries := g.registries.modify o f }

/-- Registers an observer for a topic, under the next key of the object's registry. -/
def observe (g : Graph F) (o : ObjectId) (topic : Topic) (observer : Observer) : Graph F :=
  g.modifyRegistry o (·.insert topic observer)

def unobserve (g : Graph F) (o : ObjectId) (key : Key) : Graph F :=
  g.modifyRegistry o (·.erase key)

end Graph

end LivePath
