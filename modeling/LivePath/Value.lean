import LivePath.Numeric.Binary64

/-!
# Values

A value is a primitive or a reference. Arrays, models and collections are known by their numbers:
two references are equal if they refer to one object. Absence is no value; where it can occur the
type is `Option Value`.
-/

namespace LivePath

abbrev ArrayId := Nat

/-- Models, collections and foreign containers share one numbering. -/
abbrev ObjectId := Nat

/-- What an attribute or a place of a sequence holds. -/
inductive Value where
  | bool (b : Bool)
  | int (n : Int64)
  | float (x : Binary64)
  | str (s : String)
  /-- A sequence that never changes and cannot be observed. -/
  | array (id : ArrayId)
  /-- An object with named fields. -/
  | model (id : ObjectId)
  /-- An observable sequence. -/
  | collection (id : ObjectId)
  deriving DecidableEq, Repr, Inhabited

/-- What a value is, for messages and for the order of kinds. -/
inductive Kind where
  | bool
  | int
  | float
  | string
  | array
  | model
  | collection
  deriving DecidableEq, Repr

namespace Kind

def name : Kind → String
  | bool => "bool"
  | int => "int"
  | float => "float"
  | string => "string"
  | array => "array"
  | model => "model"
  | collection => "collection"

/-- The place of a kind in the order of kinds. -/
def rank : Kind → Nat
  | bool => 0
  | int => 1
  | float => 2
  | string => 3
  | array => 4
  | model => 5
  | collection => 6

instance : Ord Kind where
  compare a b := compare a.rank b.rank

end Kind

namespace Value

def kind : Value → Kind
  | bool _ => .bool
  | int _ => .int
  | float _ => .float
  | str _ => .string
  | array _ => .array
  | model _ => .model
  | collection _ => .collection

/-- Strict equality: floats are compared as numbers, everything else has to be identical. -/
def same : Value → Value → Bool
  | float x, float y => x.same y
  | v, w => v = w

/-- Strict equality where values may be absent. -/
def sameOption : Option Value → Option Value → Bool
  | none, none => true
  | some v, some w => v.same w
  | _, _ => false

/--
The order of two primitives of one kind. An integer is compared with a float after rounding it to
the nearest float. Text is ordered by code points. There is no order between other kinds, nor
between references.
-/
def compare? : Value → Value → Option Ordering
  | bool a, bool b => some (compare a b)
  | int a, int b => some (compare a b)
  | float x, float y => x.compare? y
  | int a, float y => (Binary64.ofInt64 a).compare? y
  | float x, int b => x.compare? (Binary64.ofInt64 b)
  | str a, str b => some (compare a b)
  | _, _ => none

end Value

end LivePath
