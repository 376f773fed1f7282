import LivePath.Graph.Basic

/-!
# Cycles

A foreign container whose fields answer with one value after the other, over and over. It shows how
often a field is read.
-/

namespace LivePath

/-- The answers of one field and the place of the next one. -/
structure Rotation where
  answers : List (Option Value)
  position : Nat := 0
  deriving DecidableEq, Repr

namespace Rotation

/-- The next answer; a rotation without answers is absent for good. -/
def answer (r : Rotation) : Option Value :=
  (r.answers[r.position]?).join

/-- The rotation after one answer, at its beginning again after the last one. -/
def turn (r : Rotation) : Rotation :=
  { r with position := if r.position + 1 < r.answers.length then r.position + 1 else 0 }

end Rotation

structure Cycle where
  fields : List (String × Rotation) := []
  deriving DecidableEq, Repr

namespace Cycle

/-- The fields without `name`, and with `name` in front if there is a rotation for it. -/
def replace (c : Cycle) (name : String) (r : Option Rotation) : Cycle :=
  ⟨(r.map (name, ·)).toList ++ c.fields.filter (·.1 ≠ name)⟩

/-- The container with the given answers, the last list where a name is repeated. -/
def ofFields (fields : List (String × List (Option Value))) : Cycle :=
  fields.foldl (fun c f => c.replace f.1 (some { answers := f.2 })) {}

/-- An assignment is always announced, the removal of a field only if it was there. -/
instance : Foreign Cycle where
  field c name :=
    match c.fields.lookup name with
    | none => (none, c)
    | some r => (r.answer, c.replace name (some r.turn))
  item c _ := (none, c)
  assign c name v := (c.replace name (some { answers := [some v] }), [.change name])
  unassign c name :=
    match c.fields.lookup name with
    | none => (c, [])
    | some _ => (c.replace name none, [.change name])

end Cycle

end LivePath
