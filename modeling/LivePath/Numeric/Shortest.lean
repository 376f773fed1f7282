import LivePath.Numeric.Binary64

/-!
# The shortest decimal of a number

Many decimals round to the same binary number. `Binary64.shortest` takes one with as few digits as
possible, the nearest of those, and `Binary64.write` writes it as a `DecimalStyle` says.
-/

namespace LivePath

/-- The decimal number `digits · 10 ^ exponent`. -/
structure Decimal where
  digits : Nat
  exponent : Int
  deriving DecidableEq, Repr

/-- The decisions in which the texts of numbers differ. -/
structure DecimalStyle where
  /-- The least power of ten of a leading digit for which a number is written around a point. -/
  least : Int
  /-- The power of ten of a leading digit from which on it is not. -/
  limit : Int
  /-- Whether a power of ten that is not negative has a sign. -/
  plus : Bool
  /-- Of two decimals equally near, whether the one with the even last digit is taken, or else the
  greater. -/
  evenTies : Bool
  deriving DecidableEq, Repr

namespace Decimal

def leading (d : Decimal) : Int :=
  d.exponent + d.digits.repr.length - 1

/-- The digits around a point, at least one on either side. -/
def positional (d : Decimal) : String :=
  let digits := d.digits.repr.toList
  let left := digits.length + d.exponent
  if 0 ≤ d.exponent then
    String.ofList (digits ++ List.replicate d.exponent.toNat '0') ++ ".0"
  else if 0 < left then
    String.ofList (digits.take left.toNat) ++ "." ++ String.ofList (digits.drop left.toNat)
  else
    "0." ++ String.ofList (List.replicate (-left).toNat '0' ++ digits)

/-- One digit, the others behind a point, and the power of ten. -/
def scientific (plus : Bool) (d : Decimal) : String :=
  let digits := d.digits.repr.toList
  let rest := digits.drop 1
  String.ofList (digits.take 1) ++ (if rest = [] then "" else "." ++ String.ofList rest)
    ++ "e" ++ (if plus ∧ 0 ≤ d.leading then "+" else "") ++ toString d.leading

/-- The text of a decimal. -/
def write (style : DecimalStyle) (d : Decimal) : String :=
  if style.least ≤ d.leading ∧ d.leading < style.limit then d.positional
  else d.scientific style.plus

end Decimal

namespace Binary64

/-- The absolute value of a finite number is `significand · 2 ^ (scale - 2)`. The factor four makes
room for the half way points to its neighbours. -/
def fourfold (x : Binary64) : Nat × Int :=
  let exponent : Nat := x.magnitude >>> 52
  let fraction : Nat := x.magnitude % (1 <<< 52)
  if exponent = 0 then (4 * fraction, -1076)
  else (4 * (1 <<< 52 + fraction), (exponent : Int) - 1077)

/--
The decimals `d · 10 ^ k` next to the number, if one of them rounds to it. The interval of reals
that round to a number reaches half way to its neighbours; below a power of two the neighbour is
nearer. The ends belong to the interval if the fraction is even.
-/
def nearestOnGrid (x : Binary64) (evenTies : Bool) (k : Int) : Option Decimal :=
  let (value, scale) := x.fourfold
  -- The distances to the half way points, in quarters: two, but one below a power of two.
  let low := if x.magnitude % (1 <<< 52) = 0 ∧ 1 <<< 53 ≤ x.magnitude then 1 else 2
  let binary := Nat.pow 10 (-k).toNat <<< scale.toNat
  let decimal := Nat.pow 10 k.toNat <<< (-scale).toNat
  let inside (d : Nat) : Bool :=
    if x.magnitude % 2 = 0 then
      (value - low) * binary ≤ d * decimal ∧ d * decimal ≤ (value + 2) * binary
    else
      (value - low) * binary < d * decimal ∧ d * decimal < (value + 2) * binary
  let below := value * binary / decimal
  let above := below + 1
  let twice := 2 * (value * binary)
  let middle := (below + above) * decimal
  let belowIsNearer : Bool := twice < middle ∨ (evenTies ∧ twice = middle ∧ below % 2 = 0)
  if inside below ∧ (belowIsNearer ∨ ¬ inside above) then some ⟨below, k⟩
  else if inside above then some ⟨above, k⟩
  else none

/-- The nearest decimal on the coarsest grid that has one. -/
def shortest (x : Binary64) (evenTies : Bool) : Decimal :=
  if x.magnitude = 0 then ⟨0, 0⟩
  else ((List.range 640).findSome? fun i => x.nearestOnGrid evenTies (309 - (i : Nat))).getD ⟨0, 0⟩

/-- The text of a number. -/
def write (style : DecimalStyle) (x : Binary64) : String :=
  if x.isNaN then "NaN"
  else
    (if x.isNegative then "-" else "") ++
      if x.isFinite then (x.shortest style.evenTies).write style else "inf"

end Binary64

end LivePath
