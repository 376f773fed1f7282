import LivePath.Accessor.Error
import LivePath.Graph.Mutation

/-!
# Walks

A walk takes the links of an accessor from a root, outermost first. Every link first names the
object it depends on, if that can be observed, and then reads from it. The walk ends at a value, at
an absent one, or at a value of the wrong kind; nothing behind that is looked at.
-/

namespace LivePath

/-- An object that a link looks at, and for what. -/
inductive Dependency where
  | field (o : ObjectId) (name : String)
  | items (o : ObjectId)
  deriving DecidableEq, Repr

namespace Dependency

def target : Dependency → ObjectId
  | field o _ => o
  | items o => o

def topics : Dependency → List Topic
  | field _ name => [.change name]
  | items _ => Topic.structural

end Dependency

inductive Place where
  | field (o : ObjectId) (name : String)
  | item (o : ObjectId) (index : Nat)
  | slot (a : ArrayId) (index : Nat)
  deriving DecidableEq, Repr

inductive Visit where
  | depends (d : Dependency)
  | reads (p : Place)
  deriving DecidableEq, Repr

/-- How a walk ends: with a value, with nothing, or with an error. -/
abbrev Outcome := Except AccessError (Option Value)

/-- What happened on a walk, in order, and how it ended. -/
structure Walk where
  visits : List Visit := []
  outcome : Outcome

namespace Walk

/-- The dependencies met on the way, outermost first. -/
def dependencies (w : Walk) : List Dependency :=
  w.visits.filterMap fun
    | .depends d => some d
    | .reads _ => none

end Walk

namespace Graph
variable {F : Type} [Foreign F]

def follow (g : Graph F) (node : Node) (target : Value) : Walk × Graph F :=
  match node.step, target with
  | .attr name, .model o =>
    let (v, g) := g.readField o name
    ({ visits := [.depends (.field o name), .reads (.field o name)], outcome := .ok v }, g)
  | .item index, .collection o =>
    let (v, g) := g.readItem o index
    ({ visits := [.depends (.items o), .reads (.item o index)], outcome := .ok v }, g)
  | .item index, .array a =>
    ({ visits := [.reads (.slot a index)], outcome := .ok (g.readSlot a index) }, g)
  | _, other => ({ outcome := .error (.typeMismatch node other.kind) }, g)

def walk (g : Graph F) : Accessor → Value → Walk × Graph F
  | .root, v => ({ outcome := .ok (some v) }, g)
  | .join parent node, v =>
    match g.walk parent v with
    | (⟨visits, .ok (some target)⟩, g) =>
      let (w, g) := g.follow node target
      ({ visits := visits ++ w.visits, outcome := w.outcome }, g)
    | stopped => stopped

def get (g : Graph F) (a : Accessor) (root : Value) : Outcome × Graph F :=
  let (w, g) := g.walk a root
  (w.outcome, g)

/-- The field that an assignment through an accessor goes to. Only the parent of the field is
read. -/
def assignee (g : Graph F) (a : Accessor) (root : Value) :
    Except AccessError (ObjectId × String) × Graph F :=
  match a with
  | .root => (.error (.unsupported .root), g)
  | .join parent node =>
    match node.step with
    | .item _ => (.error (.unsupported .item), g)
    | .attr name =>
      let (outcome, g) := g.get parent root
      (match outcome with
        | .error e => .error e
        | .ok none => .error (.missingParent node)
        | .ok (some (.model o)) => .ok (o, name)
        | .ok (some other) => .error (.typeMismatch node other.kind), g)

/-- Assigns the place that an accessor addresses, and tells which object has to announce what. -/
def set (g : Graph F) (a : Accessor) (root v : Value) :
    Except AccessError (ObjectId × List Topic) × Graph F :=
  match g.assignee a root with
  | (.error e, g) => (.error e, g)
  | (.ok (o, name), g) =>
    let changed := g.mutate o (.fields (.assign [(name, v)]))
    (.ok (o, changed.topics), changed.state)

end Graph

end LivePath
