import LivePath.Numeric.Shortest
import LivePath.Path.Basic

/-!
# Paths in documents

In a document a path stands as its text. `Path.ofDocument` accepts nothing but the text of a well
formed path.
-/

namespace LivePath

/-- A value of a document, as far as it matters when a path is wanted. -/
inductive Document where
  | null
  | boolean (value : Bool)
  | integer (value : Int)
  | float (value : Binary64)
  | text (value : String)
  | sequence
  | map
  deriving DecidableEq, Repr

/-- Documents write numbers around a point between `0.00001` and `10 ^ 16`, and give the power of
ten a sign. -/
def Document.decimalStyle : DecimalStyle :=
  { least := -5, limit := 16, plus := true, evenTies := true }

/-- How a value is called where it is not welcome. -/
def Document.description : Document → String
  | null => "null"
  | boolean value => s!"boolean `{value}`"
  | integer value => s!"integer `{value}`"
  | float value => s!"floating point `{value.write decimalStyle}`"
  | text value => s!"string {value.quote}"
  | sequence => "sequence"
  | map => "map"

/-- Why a document holds no path. -/
inductive DocumentError where
  | malformed (e : SyntaxError)
  | unexpected (found : Document)
  deriving DecidableEq, Repr

def DocumentError.message : DocumentError → String
  | malformed e => e.message
  | unexpected found => s!"invalid type: {found.description}, expected a model path string"

namespace Path

def toDocument (p : Path) : Document :=
  .text p.render

def ofDocument : Document → Except DocumentError Path
  | .text value => (parse value).mapError .malformed
  | found => .error (.unexpected found)

end Path

end LivePath
