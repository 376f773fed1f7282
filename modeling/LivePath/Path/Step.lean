/-!
# Steps and nodes

A path is a sequence of steps. Each step stands in a node, which also keeps the piece of text the
step was written as and where that piece began. Text and offset serve messages only; access looks at
the step.
-/

namespace LivePath

/-- One step into a value: the attribute `name` of a model, or the item at `index` of a sequence. -/
inductive Step where
  | attr (name : String)
  | item (index : Nat)
  deriving DecidableEq, Repr, Inhabited

/-- What a step reads, without its name or index. -/
inductive StepKind where
  | attr
  | item
  deriving DecidableEq, Repr

namespace StepKind

/-- The name under which a kind of step is reported. -/
def name : StepKind → String
  | attr => "Attribute"
  | item => "CollectionItem"

/-- Attributes come before items. -/
instance : Ord StepKind where
  compare
    | attr, item => .lt
    | item, attr => .gt
    | _, _ => .eq

end StepKind

namespace Step

def kind : Step → StepKind
  | attr _ => .attr
  | item _ => .item

/-- A step as it is written behind other steps: `.name` or `[index]`. -/
def render : Step → String
  | attr name => "." ++ name
  | item index => "[" ++ index.repr ++ "]"

/-- A step as it is written at the front of a path, where an attribute has no dot. -/
def renderFirst : Step → String
  | attr name => name
  | item index => "[" ++ index.repr ++ "]"

/-- By kind, then attributes by name and items by index. -/
instance : Ord Step where
  compare
    | attr a, attr b => compare a b
    | item i, item j => compare i j
    | a, b => compare a.kind b.kind

end Step

/-- A step with the text it was written as and the number of characters before it. -/
structure Node where
  step : Step
  text : String
  offset : Nat := 0
  deriving DecidableEq, Repr, Inhabited

namespace Node

/-- A node for the attribute `name`, written with a dot unless it is the `first` of its path. -/
def attr (name : String) (first : Bool) : Node :=
  let step := Step.attr name
  { step, text := if first then step.renderFirst else step.render }

def item (index : Nat) : Node :=
  { step := .item index, text := (Step.item index).render }

/-- By step, then by text, then by offset. -/
instance : Ord Node where
  compare a b := (compare a.step b.step).then
    ((compare a.text b.text).then (compare a.offset b.offset))

end Node

end LivePath
