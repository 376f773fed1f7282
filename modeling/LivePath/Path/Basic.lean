import LivePath.Path.Cursor

/-!
# Paths

`Path.parse` reads a path from text, `Path.render` writes its normal form: no white space, no
leading zeros. `Stream` reads the same nodes one at a time; they can be collected, or taken over
into a path as they come.
-/

namespace LivePath

/-- The nodes of a path in the order of access; the empty path is the identity. -/
structure Path where
  nodes : List Node
  deriving DecidableEq, Repr, Inhabited

namespace Path

/-- Reads a whole path. A path of nothing but white space is the empty one. -/
def parse (text : String) : Except SyntaxError Path :=
  match (Cursor.ofString text).skipSpace.nodes true with
  | .ok nodes => .ok ⟨nodes⟩
  | .error fault => .error { fault with path := text }

def renderRest : List Node → String
  | [] => ""
  | n :: ns => n.step.render ++ renderRest ns

/-- The steps in a row, the first one without its dot. -/
def render (p : Path) : String :=
  match p.nodes with
  | [] => ""
  | n :: ns => n.step.renderFirst ++ renderRest ns

/-- Node by node; a path comes before every path that goes on behind it. -/
instance : Ord Path where
  compare a b := List.compareLex compare a.nodes b.nodes

end Path

/-- Where a stream stands: before its leading white space, between two nodes, or at its end. -/
inductive Stage where
  | start
  | running
  | done
  deriving DecidableEq, Repr

/-- A path that is read one node at a time. -/
structure Stream where
  path : String
  cursor : Cursor
  first : Bool := true
  stage : Stage := .start
  deriving DecidableEq, Repr

namespace Stream

def ofString (path : String) : Stream :=
  { path, cursor := .ofString path }

/-- The next node. After an error, and after the last node, there is nothing more. -/
def next (s : Stream) : Option (Except SyntaxError Node) × Stream :=
  match s.stage with
  | .done => (none, s)
  | stage =>
    let cursor := if stage = .start then s.cursor.skipSpace else s.cursor
    match cursor.next s.first with
    | none => (none, { s with cursor, stage := .done })
    | some (.error fault) =>
      (some (.error { fault with path := s.path }), { s with cursor, stage := .done })
    | some (.ok (node, rest)) =>
      (some (.ok node), { s with cursor := rest, first := false, stage := .running })

def take (s : Stream) : Nat → List (Option (Except SyntaxError Node))
  | 0 => []
  | n + 1 => s.next.1 :: s.next.2.take n

/-- Each node shortens what is left. -/
theorem length_of_next {s t : Stream} {n : Node} (h : s.next = (some (.ok n), t)) :
    t.cursor.rest.length < s.cursor.rest.length := by
  unfold next at h
  split at h
  · cases h
  · simp only at h
    split at h <;> cases h
    next hnext =>
    refine Nat.lt_of_lt_of_le (Cursor.length_of_next hnext) ?_
    split
    · exact s.cursor.length_skipSpace_le
    · exact Nat.le_refl _

/-- Collects the nodes of a stream. The first error is all that is left of them. -/
def collect (s : Stream) : Except SyntaxError (List Node) :=
  match _h : s.next with
  | (none, _) => .ok []
  | (some (.error e), _) => .error e
  | (some (.ok node), rest) => rest.collect.map (node :: ·)
termination_by s.cursor.rest.length
decreasing_by exact length_of_next _h

end Stream

/-- Takes the nodes of a stream over into a path, behind those that it has. -/
def Path.extend (p : Path) (s : Stream) : Except SyntaxError Path :=
  match _h : s.next with
  | (none, _) => .ok p
  | (some (.error e), _) => .error e
  | (some (.ok node), rest) => Path.extend ⟨p.nodes ++ [node]⟩ rest
termination_by s.cursor.rest.length
decreasing_by exact Stream.length_of_next _h

end LivePath
