/-!
# Binary floating point of 64 bits

A number is its sixty-four bits, so that arithmetic on it is arithmetic on natural numbers. The
order is read off the bits: the low sixty-three, as a natural number, grow with the absolute value,
hence `key` grows with the value, and the two zeros share the key `0`. A bit pattern above that of
infinity is not a number and has no place in the order.
-/

namespace LivePath

/-- A binary floating point number of 64 bits: sign, 11 bits of exponent, 52 bits of fraction. -/
structure Binary64 where
  bits : UInt64
  deriving DecidableEq, Repr, Inhabited

namespace Binary64

def isNegative (x : Binary64) : Bool :=
  1 <<< 63 ≤ x.bits.toNat

/-- The bits without the sign. -/
def magnitude (x : Binary64) : Nat :=
  x.bits.toNat % (1 <<< 63)

/-- The magnitude of infinity; all larger ones are not numbers. -/
def infinity : Nat := 0x7ff0000000000000

def isNaN (x : Binary64) : Bool :=
  infinity < x.magnitude

def isFinite (x : Binary64) : Bool :=
  x.magnitude < infinity

/-- The place of a number in the order. -/
def key (x : Binary64) : Int :=
  if x.isNegative then -(x.magnitude : Int) else x.magnitude

/-- The order of two numbers; a pattern that is not a number compares with nothing. -/
def compare? (x y : Binary64) : Option Ordering :=
  if x.isNaN || y.isNaN then none else some (compare x.key y.key)

/-- Equal as numbers: the zeros are equal, and what is not a number differs from all, itself
included. -/
def same (x y : Binary64) : Bool :=
  x.compare? y == some .eq

/-- The bits with all patterns that are not a number made into one. -/
def canonicalBits (x : Binary64) : UInt64 :=
  if x.isNaN then 0x7ff8000000000000 else x.bits

def ofMagnitude (negative : Bool) (magnitude : Nat) : Binary64 :=
  ⟨UInt64.ofNat (magnitude + if negative then 1 <<< 63 else 0)⟩

/-- The quotient of `n` by `2 ^ shift`, rounded to the nearest natural number, a half going to the
even one. -/
def roundShift (n shift : Nat) : Nat :=
  let quotient := n >>> shift
  let unit := 1 <<< shift
  let twice := 2 * (n % unit)
  if twice < unit ∨ (twice = unit ∧ quotient % 2 = 0) then quotient else quotient + 1

/--
The magnitude nearest to `n · 2 ^ scale`, as long as that is neither too large nor subnormal. The
leading bit of the significand adds one to the exponent field, and so does a significand that
rounding carries to `2 ^ 53`.
-/
def magnitudeOf (n : Nat) (scale : Int) : Nat :=
  if n = 0 then 0
  else
    let length := n.log2
    let significand := if length ≤ 52 then n <<< (52 - length) else roundShift n (length - 52)
    (length + scale + 1022).toNat <<< 52 + significand

def ofInt64 (n : Int64) : Binary64 :=
  ofMagnitude (n < 0) (magnitudeOf n.toInt.natAbs 0)

/-- The number with the 32 bits of a shorter format: sign, 8 bits of exponent, 23 bits of
fraction. -/
def ofBits32 (bits : UInt32) : Binary64 :=
  let negative := decide (1 <<< 31 ≤ bits.toNat)
  let exponent : Nat := (bits.toNat >>> 23) % (1 <<< 8)
  let fraction := bits.toNat % (1 <<< 23)
  ofMagnitude negative <|
    if exponent = 0xff then infinity + fraction <<< 29
    else if exponent = 0 then magnitudeOf fraction (-149)
    else magnitudeOf (1 <<< 23 + fraction) ((exponent : Int) - 150)

end Binary64

end LivePath
