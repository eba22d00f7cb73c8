import SelectSql.Decimal.Binary64

/-!
# SelectSql.Decimal.Shortest

The shortest decimal of a floating-point number: the fewest digits that read back
to it, and of those the nearest. The reals that round to the number `m * 2 ^ q`
form an interval, its ends included exactly when `m` is even; `readsBack` decides
membership by comparing products of natural numbers. For one digit, two digits and
so on the two neighbours of the number on that decimal grid are tried, and the
first grid with a hit wins. Two hits that are equally near are told apart by the
caller's `Tie` rule.
-/

namespace SelectSql

/-- The decimal number `digits * 10 ^ exponent`. -/
structure Decimal where
  digits : Nat
  exponent : Int
deriving DecidableEq

namespace Decimal

open Binary64 (tenPow)

/-- Which of two equally near decimals is taken. -/
inductive Tie
  | up
  | even

/-- Compares `a * 10 ^ i` with `n * 2 ^ j`. -/
def compareScaled (a : Nat) (i : Int) (n : Nat) (j : Int) : Ordering :=
  compare ((a * tenPow i.toNat) <<< (-j).toNat) ((n <<< j.toNat) * tenPow (-i).toNat)

/-- Whether a decimal is among the reals that round to a magnitude. -/
def readsBack (x : Binary64.Magnitude) (d : Decimal) : Bool :=
  let low := if x.narrowBelow then 4 * x.m - 1 else 4 * x.m - 2
  let high := 4 * x.m + 2
  let closed := x.m % 2 == 0
  let atLow := compareScaled d.digits d.exponent low (x.q - 2)
  let atHigh := compareScaled d.digits d.exponent high (x.q - 2)
  (atLow == .gt || (closed && atLow == .eq)) && (atHigh == .lt || (closed && atHigh == .eq))

/-! ## Choosing the digits -/

/-- The least `k` with `m * 2 ^ q < 10 ^ k`, for a positive magnitude. -/
def pointOf (x : Binary64.Magnitude) : Int :=
  let guess := (((x.m.log2 : Int) + x.q) * 30103).fdiv 100000
  let fits (k : Int) : Bool := compareScaled 1 k x.m x.q == .gt
  ([guess - 1, guess, guess + 1].find? fits).getD (guess + 2)

/-- The better neighbour on the grid of `10 ^ exponent`, if one reads back. -/
def onGrid? (tie : Tie) (x : Binary64.Magnitude) (exponent : Int) : Option Decimal :=
  let num := (x.m <<< x.q.toNat) * tenPow (-exponent).toNat
  let den := tenPow exponent.toNat <<< (-x.q).toNat
  let low : Decimal := ⟨num / den, exponent⟩
  let high : Decimal := ⟨num / den + 1, exponent⟩
  match readsBack x low, readsBack x high with
  | false, false => none
  | true, false => some low
  | false, true => some high
  | true, true =>
    match compare (2 * num) ((2 * low.digits + 1) * den), tie with
    | .lt, _ => some low
    | .gt, _ => some high
    | .eq, .up => some high
    | .eq, .even => some (if low.digits % 2 = 0 then low else high)

/-- Moves the trailing zeros of the digits into the exponent, at most `fuel` of them. -/
def stripZeros : Nat → Decimal → Decimal
  | 0, d => d
  | fuel + 1, d =>
    if d.digits ≠ 0 ∧ d.digits % 10 = 0 then stripZeros fuel ⟨d.digits / 10, d.exponent + 1⟩
    else d

/-- The shortest decimal of a magnitude; zero is `0 * 10 ^ 0`. Should no grid up to
seventeen digits have a hit, the exact value is taken. -/
def shortest (tie : Tie) (x : Binary64.Magnitude) : Decimal :=
  if x.m = 0 then ⟨0, 0⟩
  else
    let point := pointOf x
    let found := (List.range 17).findSome? fun n => onGrid? tie x (point - (n + 1 : Nat))
    stripZeros 1100
      (found.getD ⟨(x.m <<< x.q.toNat) * Nat.pow 5 (-x.q).toNat, -(-x.q).toNat⟩)

example : shortest .even (Binary64.magnitude ⟨0x3FB999999999999A⟩) = ⟨1, -1⟩ := by
  decide +kernel
example : shortest .even (Binary64.magnitude ⟨0x3E60000000000000⟩) = ⟨29802322387695312, -24⟩ := by
  decide +kernel
example : shortest .up (Binary64.magnitude ⟨0x3E60000000000000⟩) = ⟨29802322387695313, -24⟩ := by
  decide +kernel
example : shortest .up (Binary64.magnitude ⟨1⟩) = ⟨5, -324⟩ := by decide +kernel

end Decimal

end SelectSql
