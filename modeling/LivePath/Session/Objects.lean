import LivePath.Session.Command
import LivePath.Session.Description
import LivePath.Session.Effect

/-!
# Commands on objects

Objects are made, asked and changed. A command that refers to a name without the right meaning has
no effect.
-/

namespace LivePath

namespace World
variable {F : Type} [Foreign F]

/-- Makes an object and gives it a name. -/
def create (w : World F) (name : String) : Blueprint F → Except Failure (Effect F)
  | .model attrs => do
    let (pairs, w) ← w.evaluatePairs attrs
    let (o, w) := w.addObject (.model (.ofList pairs))
    return ⟨w.nameObject name (.model o), .done, .silent⟩
  | .array items => do
    let (values, w) ← w.evaluateList items
    let (a, w) := w.addArray values
    return ⟨w.nameObject name (.array a), .done, .silent⟩
  | .collection items ranking => do
    let (values, w) ← w.evaluateList items
    match (Graph.newCollection values ranking).run w.graph with
    | (.ok object, graph) =>
      let (o, w) := { w with graph }.addObject object
      return ⟨w.nameObject name (.collection o), .done, .silent⟩
    | (.error d, graph) => return ⟨{ w with graph }, Reply.answer (.disorder d), .silent⟩
  | .dispatcher =>
    let d := w.dispatchers.next
    let w := { w with dispatchers := w.dispatchers.push {} }
    return ⟨w.nameObject name (.dispatcher d), .done, .silent⟩
  | .foreign fields make => do
    let (answers, w) ← w.evaluateRotations fields
    let (o, w) := w.addObject (.foreign (make answers))
    return ⟨w.nameObject name (.foreign o), .done, .silent⟩

/-- The value of a field, and the world after it was read. -/
def readField (w : World F) (o : ObjectId) (name : String) : Option Value × World F :=
  let (v, graph) := w.graph.readField o name
  (v, { w with graph })

/-- Answers a question. Only reading a foreign container can leave a trace in the world. -/
def ask (w : World F) : Question → Except Failure (World F × Answer)
  | .equal a b => do
    let (a, w) ← w.evaluate a
    let (b, w) ← w.evaluate b
    return (w, .truth (a.same b))
  | .compare a b => do
    let (a, w) ← w.evaluate a
    let (b, w) ← w.evaluate b
    return (w, .ordering (a.compare? b))
  | .kind v => do
    let (v, w) ← w.evaluate v
    return (w, .kind v)
  | .get on name => do
    let (v, w) := w.readField (← w.model on) name
    return (w, .value v)
  | .has on name => do
    let (v, w) := w.readField (← w.model on) name
    return (w, .truth v.isSome)
  | .field on name => do
    let (v, w) := w.readField (← w.fieldHolder on) name
    return (w, .value v)
  | .itemAt on index => do
    return (w, .value (w.graph.items (← w.collection on))[index]?)
  | .indexOf on v => do
    let o ← w.collection on
    let (v, w) ← w.evaluate v
    return (w, Reply.answer (.place ((w.graph.items o).findIdx? (·.same v))))
  | .items on => do
    let o ← w.collection on
    return (w, .items (w.graph.items o) (w.graph.isSorted o))
  | .ordered on index => do
    let items := w.graph.items (← w.collection on)
    return (w, .item items.length items[index]?)
  | .count on topic => do
    return (w, .number ((w.graph.registries.get (← w.observable on)).countTagged (· = topic)))
  | .contains on label => do
    let d ← w.dispatcher on
    let key ← find w.names.subscriptions label Subscription.key?
    return (w, .truth ((w.dispatchers.get d).contains key))
  | .size on => do
    return (w, .size (w.dispatchers.get (← w.dispatcher on)).size)
  | .countTagged on tag => do
    return (w, .number ((w.dispatchers.get (← w.dispatcher on)).countTagged (· = tag)))
  | .describe on => do
    return (w, .text (← w.describeNamed on))

/-- The object and the mutation that an edit asks for. -/
def mutationOf (w : World F) (on : String) : Edit → Except Failure (ObjectId × Mutation × World F)
  | .set name v => do
    let o ← w.model on
    let (v, w) ← w.evaluate v
    return (o, .fields (.assign [(name, v)]), w)
  | .setAll pairs => do
    let o ← w.model on
    let (pairs, w) ← w.evaluatePairs pairs
    return (o, .fields (.assign pairs), w)
  | .unset name => do
    return (← w.model on, .fields (.unassign name), w)
  | .setField name v => do
    let o ← w.fieldHolder on
    let (v, w) ← w.evaluate v
    return (o, .fields (.assign [(name, v)]), w)
  | .unsetField name => do
    return (← w.fieldHolder on, .fields (.unassign name), w)
  | .add v => do
    let o ← w.collection on
    let (v, w) ← w.evaluate v
    return (o, .items (.add v), w)
  | .insert index v => do
    let o ← w.collection on
    let (v, w) ← w.evaluate v
    return (o, .items (.insert index v), w)
  | .remove v => do
    let o ← w.collection on
    let (v, w) ← w.evaluate v
    return (o, .items (.remove v), w)
  | .removeAt index => do
    return (← w.collection on, .items (.removeAt index), w)
  | .reset items => do
    let o ← w.collection on
    let (values, w) ← w.evaluateList items
    return (o, .items (.reset values), w)
  | .sort => do
    return (← w.collection on, .items .sort, w)

/-- Applies a mutation to an object; its topics are left to be announced. -/
def mutate (w : World F) (o : ObjectId) (m : Mutation) : Effect F :=
  let changed := w.graph.mutate o m
  ⟨{ w with graph := changed.state }, changed.reply.answer, .topics o changed.topics⟩

/-- Changes the object of a name. -/
def edit (w : World F) (on : String) (e : Edit) : Except Failure (Effect F) := do
  let (o, m, w) ← w.mutationOf on e
  return w.mutate o m

end World

end LivePath
