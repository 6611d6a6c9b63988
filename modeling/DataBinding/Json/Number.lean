/-!
# Numbers

A number is either an integer that fits in 64 bits, signed or unsigned, or a finite double. The two
kinds never compare equal: `1` and `1.0` are different values.

A double is a sign and a rank: the place of its magnitude in the increasing list of all magnitudes
that 64-bit binary floating point has, zero being rank 0. Every magnitude is a whole multiple of
`2 ^ (-1074)`, so exact arithmetic on doubles is arithmetic on natural numbers, and rounding is one
function from a ratio to a rank.

* `Double.units`: the magnitude of a rank, counted in `2 ^ (-1074)`.
* `Double.rankOfRatio`: the nearest rank to a ratio, the even one when two are equally near.
-/

namespace DataBinding

/-! ## Doubles -/

namespace Double

/-- The number of finite magnitudes: 2047 binades of `2 ^ 52` each, subnormal numbers included. -/
def rankBound : Nat := 2047 * 0x10000000000000

/-- How many of `2 ^ (-1074)` make up one. -/
def unitsPerOne : Nat := 1 <<< 1074

end Double

/-- A finite double: there is no infinity and no value that is not a number. -/
structure Double where
  negative : Bool
  rank : Nat
  rank_lt : rank < Double.rankBound

namespace Double

/-- The significand of a rank: below `2 ^ 52` in the subnormal binade, with its leading bit set in
every other one. -/
def significand (rank : Nat) : Nat :=
  if rank < 0x10000000000000 then rank else 0x10000000000000 + rank % 0x10000000000000

/-- The magnitude of a rank in multiples of `2 ^ (-1074)`. The first two binades share a scale. -/
def units (rank : Nat) : Nat :=
  significand rank <<< (rank / 0x10000000000000 - 1)

/-- The quotient rounded to the nearest integer, a half to the even one. -/
def divideRounded (num den : Nat) : Nat :=
  let quotient := num / den
  let remainder := num % den
  if 2 * remainder < den then quotient
  else if den < 2 * remainder then quotient + 1
  else quotient + quotient % 2

/-- The rank nearest to `num / den`. A result of at least `rankBound` is beyond the finite range.

The scale is chosen such that the quotient has 53 bits, or fewer at the scale of the subnormal
numbers. A quotient that rounds up to `2 ^ 53` gives the first rank of the next binade, because
ranks run on from one binade to the next. -/
def rankOfRatio (num den : Nat) : Nat :=
  let scale := (num * unitsPerOne / den).log2 - 52
  scale * 0x10000000000000 + divideRounded (num * unitsPerOne) (den <<< scale)

def rankMul (a b : Nat) : Nat :=
  rankOfRatio (units a * units b) (unitsPerOne * unitsPerOne)

def rankDiv (a b : Nat) : Nat :=
  rankOfRatio (units a) (units b)

/-- A double of the given sign and rank, if the rank is finite. -/
def ofRank? (negative : Bool) (rank : Nat) : Option Double :=
  if h : rank < rankBound then some ⟨negative, rank, h⟩ else none

def zero (negative : Bool) : Double := ⟨negative, 0, by decide⟩

def isZero (x : Double) : Bool := x.rank == 0

/-- The integer part, rounded toward zero. -/
def truncate (x : Double) : Int :=
  let whole : Int := (units x.rank / unitsPerOne : Nat)
  if x.negative then -whole else whole

/-- Equality of numbers: the two zeros are equal. -/
protected def beq (x y : Double) : Bool :=
  x.rank == y.rank && (x.negative == y.negative || x.rank == 0)

instance : BEq Double := ⟨Double.beq⟩

end Double

/-! ## Integers and doubles -/

inductive Number where
  | integer (value : Int) (inRange : -0x8000000000000000 ≤ value ∧ value < 0x10000000000000000)
  | double (value : Double)

namespace Number

/-- An integer in range, or nothing. -/
def ofInt? (value : Int) : Option Number :=
  if h : -0x8000000000000000 ≤ value ∧ value < 0x10000000000000000 then some (.integer value h) else none

def ofUInt64 (value : UInt64) : Number :=
  .integer value.toNat (by have := value.toNat_lt; omega)

def ofUInt32 (value : UInt32) : Number :=
  .integer value.toNat (by have := value.toNat_lt; omega)

def ofInt32 (value : Int32) : Number :=
  .integer value.toInt (by have := value.toInt_lt; have := value.le_toInt; omega)

/-- Integers by value, doubles as numbers, and never one of each kind. -/
protected def beq : Number → Number → Bool
  | .integer a _, .integer b _ => a == b
  | .double a, .double b => a == b
  | _, _ => false

instance : BEq Number := ⟨Number.beq⟩

def isZero : Number → Bool
  | .integer value _ => value == 0
  | .double value => value.isZero

/-- The value as a signed 64-bit integer: a fraction is cut off, and what lies beyond the range
becomes the end of the range. -/
def toInt64Saturating : Number → Int
  | .integer value _ => min value (0x8000000000000000 - 1)
  | .double value => max (-0x8000000000000000) (min value.truncate (0x8000000000000000 - 1))

end Number

end DataBinding
