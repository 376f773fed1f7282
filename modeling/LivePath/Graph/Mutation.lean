import LivePath.Graph.Basic
import LivePath.Sorting.Adaptive
import LivePath.Sorting.Bisection

/-!
# Mutations

A mutation changes one object, is answered, and names the topics that the object has to announce
afterwards. It is applied as a whole before any of them is announced. A change that would leave
everything as it is announces nothing, and neither does one that sorting gives up.
-/

namespace LivePath

inductive FieldChange where
  /-- Assigns the pairs from left to right. -/
  | assign (pairs : List (String × Value))
  | unassign (name : String)

inductive ItemChange where
  /-- Adds an item at the end, or at its place if the collection is sorted. -/
  | add (item : Value)
  /-- Adds an item at `index`, or at the end if that lies behind it. A sorted collection knows the
  place better. -/
  | insert (index : Nat) (item : Value)
  /-- Removes the first item that is strictly equal to `item`. -/
  | remove (item : Value)
  | removeAt (index : Nat)
  | reset (items : List Value)
  /-- Sorts again, after the keys of items changed. -/
  | sort

inductive Mutation where
  | fields (change : FieldChange)
  | items (change : ItemChange)

/-- What a mutation is answered with. -/
inductive Reply where
  | nothing
  /-- The place of an item that was added, or of the item that was removed, if there was one. -/
  | place (index : Option Nat)
  | item (v : Option Value)
  /-- The items contradict each other when they are compared. Nothing was changed. -/
  | disorder (d : Disorder)
  deriving DecidableEq, Repr

/-- A state with the answer to the change that led to it and the topics to announce. -/
structure Changed (σ : Type) where
  state : σ
  reply : Reply := .nothing
  topics : List Topic := []

def Changed.map {σ τ : Type} (f : σ → τ) (c : Changed σ) : Changed τ where
  state := f c.state
  reply := c.reply
  topics := c.topics

/-- Announces each attribute that changed. -/
def FieldChange.apply (fields : Fields) : FieldChange → Changed Fields
  | assign pairs =>
    let (fields, changed) := fields.assign [] pairs
    { state := fields, topics := changed.map .change }
  | unassign name =>
    if (fields.get? name).isSome then { state := fields.erase name, topics := [.change name] }
    else { state := fields }

namespace ItemChange
variable {m : Type → Type} [Monad m]

/-- The place where a collection takes in an item: behind all others, or behind the last that is not
greater. -/
def placeOf (order : Option (Value → Value → m Ordering)) (items : List Value) (item : Value) :
    m Nat :=
  match order with
  | none => return items.length
  | some order => partitionPointM (fun v => return decide ((← order v item) ≠ .gt)) items

def insertAt (items : List Value) (index : Nat) (item : Value) : Changed (List Value) :=
  { state := items.insertIdx index item, reply := .place (some index), topics := [.add] }

/-- Applies a change to the items of a collection that is sorted if there is an `order`. -/
def apply [MonadExcept Disorder m] (order : Option (Value → Value → m Ordering))
    (items : List Value) :
    ItemChange → m (Changed (List Value))
  | add item => return insertAt items (← placeOf order items item) item
  | insert index item => do
    -- A sorted collection does not care where an item is wanted.
    let place ← if order.isSome then placeOf order items item else pure (min index items.length)
    return insertAt items place item
  | remove item =>
    match items.findIdx? (·.same item) with
    | none => return { state := items, reply := .place none }
    | some index =>
      return { state := items.eraseIdx index, reply := .place (some index), topics := [.remove] }
  | removeAt index =>
    match items[index]? with
    | none => return { state := items, reply := .item none }
    | some v =>
      return { state := items.eraseIdx index, reply := .item (some v), topics := [.remove] }
  | reset items =>
    match order with
    | none => return { state := items, topics := [.reset] }
    | some order => return { state := ← sortM order items, topics := [.reset] }
  | sort =>
    match order with
    | none => return { state := items }
    | some order => return { state := ← sortM order items, topics := [.reset] }

end ItemChange

namespace Graph
variable {F : Type} [Foreign F]

def assignForeign (state : F) : List (String × Value) → Changed F
  | [] => { state }
  | (name, v) :: pairs =>
    let (state, topics) := Foreign.assign state name v
    let rest := assignForeign state pairs
    { rest with topics := topics ++ rest.topics }

/-- Asks for the order of two items where sorting may give up. -/
def askOrder (r : Ranking) (v w : Value) : ExceptT Disorder (StateM (Graph F)) Ordering :=
  ExceptT.lift (compareItems r v w)

/-- The content of an object after a mutation. Fields belong to models and foreign containers, items
to collections; any other change leaves the object alone. Keeping a collection sorted takes reads,
which the graph may show. -/
def mutateObject : Object F → Mutation → StateM (Graph F) (Changed (Object F))
  | .model fields, .fields change => return (change.apply fields).map .model
  | .collection items ranking, .items change => do
    match ← (change.apply (ranking.map askOrder) items).run with
    | .ok changed => return changed.map (.collection · ranking)
    | .error d => return { state := .collection items ranking, reply := .disorder d }
  | .foreign state, .fields (.assign pairs) => return (assignForeign state pairs).map .foreign
  | .foreign state, .fields (.unassign name) =>
    let (state, topics) := Foreign.unassign state name
    return { state := .foreign state, topics }
  | object, _ => return { state := object }

def mutate (g : Graph F) (o : ObjectId) (m : Mutation) : Changed (Graph F) :=
  let (changed, g) := (mutateObject (g.objects.get o) m).run g
  changed.map fun object => { g with objects := g.objects.set o object }

/-- A new collection, its items sorted if there is a ranking. There is none if sorting gives up. -/
def newCollection (items : List Value) (ranking : Option Ranking) :
    StateM (Graph F) (Except Disorder (Object F)) :=
  ExceptT.run do
    match ranking with
    | none => return .collection items none
    | some r => return .collection (← sortM (askOrder r) items) ranking

end Graph

end LivePath
