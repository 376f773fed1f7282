/-!
# Syntax errors

A path that is not well formed breaks one rule at one place. `SyntaxError` names both; the wording
is made here and nowhere else.
-/

namespace LivePath

/-- The ways in which a path can be malformed. -/
inductive SyntaxRule where
  /-- White space with further steps behind it. -/
  | spaceInside
  /-- An attribute name that opens with something else than a letter or an underscore. -/
  | nameStart
  /-- Brackets without a number. -/
  | numberMissing
  /-- A number that does not fit into 64 bits. -/
  | indexTooLarge
  /-- The character `found`, or the end of the path, where only `wanted` may stand. -/
  | expected (wanted : Char) (found : Option Char)
  deriving DecidableEq, Repr

def SyntaxRule.message : SyntaxRule → String
  | spaceInside => "Unexpected whitespace in middle of path"
  | nameStart => "Names used to access an attribute must start with a letter or underscore"
  | numberMissing => "Expected a non-negative integer"
  | indexTooLarge => "Collection index is too large"
  | expected wanted (some found) => s!"Expected `{wanted}` instead of `{found}`"
  | expected wanted none => s!"Expected `{wanted}` instead of end of path"

/-- A broken rule and the number of characters before the place where it is broken. -/
structure Fault where
  offset : Nat
  rule : SyntaxRule
  deriving DecidableEq, Repr

/-- A fault together with the path it was found in. -/
structure SyntaxError extends Fault where
  path : String
  deriving DecidableEq, Repr

def SyntaxError.message (e : SyntaxError) : String :=
  s!"Encountered an error at offset {e.offset} while parsing `{e.path}`: {e.rule.message}"

end LivePath
