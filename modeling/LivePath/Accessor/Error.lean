import LivePath.Accessor.Basic
import LivePath.Value

/-!
# Access errors

Absence is not an error when reading. What can go wrong is a step into a value of the wrong kind
and, when assigning, a place that cannot be assigned.
-/

namespace LivePath

def StepKind.wanted : StepKind → String
  | attr => "model"
  | item => "collection or array"

/-- Why a place cannot be read or assigned. -/
inductive AccessError where
  /-- The step of `node` found a value that it cannot step into. -/
  | typeMismatch (node : Node) (actual : Kind)
  /-- Only attributes can be assigned. -/
  | unsupported (kind : LinkKind)
  /-- There is no model to assign the attribute of `node` to. -/
  | missingParent (node : Node)
  deriving DecidableEq, Repr

def AccessError.message : AccessError → String
  | typeMismatch node actual =>
    s!"`{node.text}` expected a {node.step.kind.wanted} but found a {actual.name}"
  | unsupported kind => s!"Setting a value is not supported by {kind.name} accessors"
  | missingParent node => s!"Cannot set `{node.text}` because its parent value is absent"

end LivePath
