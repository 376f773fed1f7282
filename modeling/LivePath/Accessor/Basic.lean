import LivePath.Path.Basic

/-!
# Accessors

An accessor is a chain of links from the addressed place up to the root. It holds no object, so that
it can be evaluated against any root.
-/

namespace LivePath

/-- The steps from a root to a place, the last step outermost. -/
inductive Accessor where
  /-- Addresses the root itself. -/
  | root
  | join (parent : Accessor) (node : Node)
  deriving DecidableEq, Repr, Inhabited

/-- What the last link of an accessor does. -/
inductive LinkKind where
  | root
  | attr
  | item
  deriving DecidableEq, Repr

namespace LinkKind

def name : LinkKind → String
  | root => "root"
  | attr => "attribute"
  | item => "collection item"

def ofStep : StepKind → LinkKind
  | .attr => attr
  | .item => item

end LinkKind

namespace Accessor

def joinAll (a : Accessor) (nodes : List Node) : Accessor :=
  nodes.foldl join a

def ofPath (p : Path) : Accessor :=
  root.joinAll p.nodes

def kind : Accessor → LinkKind
  | root => .root
  | join _ node => .ofStep node.step.kind

def node? : Accessor → Option Node
  | root => none
  | join _ node => some node

def parent? : Accessor → Option Accessor
  | root => none
  | join parent _ => some parent

def isRoot (a : Accessor) : Bool :=
  a.parent?.isNone

def length : Accessor → Nat
  | root => 0
  | join parent _ => parent.length + 1

/-- The accessor and those above it, up to the root. -/
def chain : Accessor → List Accessor
  | root => [root]
  | join parent node => join parent node :: parent.chain

/-- The path of an accessor: no dot in front of a name that is read from the root. -/
def render : Accessor → String
  | root => ""
  | join parent node =>
    parent.render ++ if parent.isRoot then node.step.renderFirst else node.step.render

end Accessor

end LivePath
