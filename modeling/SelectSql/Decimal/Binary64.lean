/-!
# SelectSql.Decimal.Binary64

Binary floating-point numbers of 64 bits, as data: they are stored, compared,
written as decimals and read from decimals, and no arithmetic is done on them.
A number is therefore its bits, and every rule below is exact arithmetic on
natural numbers.

Design points:

* **A finite number is `m * 2 ^ q`** (`Magnitude`), with the sign apart. A power
  of two has a narrower gap below it than above it (`narrowBelow`).
* **Reading a decimal rounds to nearest, ties to even** (`ofDecimal`). Magnitudes
  beyond the range become infinite, tiny ones zero, both with their sign.
* **Equality of bits is `=`; equality of numbers is `sameNumber`**: it tells NaN
  from itself and takes the two zeros for one.
-/

namespace SelectSql

/-- A binary floating-point number of 64 bits. -/
structure Binary64 where
  bits : UInt64
deriving DecidableEq

namespace Binary64

/-! ## Fields -/

/-- The sign bit. -/
def isNegative (x : Binary64) : Bool :=
  x.bits >>> 63 == 1

/-- The eleven bits of the exponent. -/
def exponentField (x : Binary64) : Nat :=
  ((x.bits >>> 52) &&& 0x7FF).toNat

/-- The fifty-two bits of the fraction. -/
def fractionField (x : Binary64) : Nat :=
  (x.bits &&& 0xFFFFFFFFFFFFF).toNat

/-- How many fractions there are, which is also the bit above the fraction. -/
def fractionSize : Nat :=
  0x10000000000000

/-- Neither an infinity nor NaN. -/
def isFinite (x : Binary64) : Bool :=
  x.exponentField != 0x7FF

/-- Not a number. -/
def isNaN (x : Binary64) : Bool :=
  x.exponentField == 0x7FF && x.fractionField != 0

/-- One of the two zeros. -/
def isZero (x : Binary64) : Bool :=
  x.exponentField == 0 && x.fractionField == 0

/-- The bits with a sign put in front of them. -/
def withSign (negative : Bool) (magnitude : Nat) : Binary64 :=
  ⟨UInt64.ofNat (if negative then 0x8000000000000000 + magnitude else magnitude)⟩

/-- The infinity of a sign. -/
def infinity (negative : Bool) : Binary64 :=
  withSign negative (0x7FF * fractionSize)

/-- The quiet NaN. -/
def nan : Binary64 :=
  ⟨0x7FF8000000000000⟩

/-- Equality as numbers: NaN differs from everything, the two zeros are equal. -/
def sameNumber (x y : Binary64) : Bool :=
  !x.isNaN && !y.isNaN && (x.bits == y.bits || (x.isZero && y.isZero))

/-! ## Magnitudes -/

/-- A finite number without its sign, `m * 2 ^ q`. -/
structure Magnitude where
  m : Nat
  q : Int
  /-- The gap to the number below is half the gap to the number above. -/
  narrowBelow : Bool

/-- The magnitude of a finite number. -/
def magnitude (x : Binary64) : Magnitude :=
  if x.exponentField = 0 then ⟨x.fractionField, -1074, false⟩
  else ⟨fractionSize + x.fractionField, (x.exponentField : Int) - 1075,
    x.fractionField == 0 && decide (1 < x.exponentField)⟩

/-! ## From decimals -/

/-- A power of ten. -/
def tenPow (n : Nat) : Nat :=
  Nat.pow 10 n

/-- The quotient rounded to nearest, a half to the even neighbour. -/
def roundQuotient (num den : Nat) : Nat :=
  let low := num / den
  let twice := 2 * (num % den)
  if twice < den then low
  else if den < twice then low + 1
  else low + low % 2

/-- The binary logarithm of a quotient of positive numbers, rounded down. -/
def quotientLog2 (num den : Nat) : Int :=
  let l := (num.log2 : Int) - den.log2
  if num <<< (-l).toNat < den <<< l.toNat then l - 1 else l

/-- The number nearest to a positive quotient, as bits without a sign. -/
def bitsOfQuotient (num den : Nat) : Nat :=
  let q := max (quotientLog2 num den - 52) (-1074)
  let m := roundQuotient (num <<< (-q).toNat) (den <<< q.toNat)
  min (m + (q + 1074).toNat * fractionSize) (0x7FF * fractionSize)

/-- How many decimal digits a number has; zero has none. -/
def decimalLength (n : Nat) : Nat :=
  if n = 0 then 0 else (Nat.toDigits 10 n).length

/-- The number nearest to `± digits * 10 ^ exponent`. Decimals at or above 10 ^ 310
are infinite and those below 10 ^ -330 are zero without further arithmetic. -/
def ofDecimal (negative : Bool) (digits : Nat) (exponent : Int) : Binary64 :=
  let point := (decimalLength digits : Int) + exponent
  if digits = 0 ∨ point < -330 then withSign negative 0
  else if 310 < point then infinity negative
  else withSign negative
    (bitsOfQuotient (digits * tenPow exponent.toNat) (tenPow (-exponent).toNat))

/-- The number nearest to an integer. -/
def ofInt (n : Int) : Binary64 :=
  ofDecimal (decide (n < 0)) n.natAbs 0

example : ofDecimal false 1 0 = ⟨0x3FF0000000000000⟩ := by decide +kernel
example : ofDecimal false 5 (-324) = ⟨1⟩ := by decide +kernel
example : ofDecimal true 1 400 = infinity true := by decide +kernel
example : ofDecimal false 17976931348623157 292 = ⟨0x7FEFFFFFFFFFFFFF⟩ := by decide +kernel
example : ofDecimal false 2 (-324) = ⟨0⟩ := by decide +kernel

end Binary64

end SelectSql
