import SelectSql.Decimal.Shortest

/-!
# SelectSql.Decimal.Layout

How the shortest decimal of a number is laid out as text. Two layouts are in use:
`Layout.plain` for SQL literals and displayed values, and `Layout.json` for JSON
documents.
-/

namespace SelectSql

/-- The decisions of a decimal layout. -/
structure Layout where
  /-- Whether a number whose leading digit has this decimal exponent is written
  without an exponent. -/
  positional : Int → Bool
  /-- Whether whole numbers end in `.0`. -/
  pointZero : Bool
  /-- Which of two equally near shortest decimals is taken. -/
  tie : Decimal.Tie

namespace Layout

/-- Never an exponent, no point behind whole numbers, ties go up. -/
def plain : Layout :=
  ⟨fun _ => true, false, .up⟩

/-- Positional from 10 ^ -5 to below 10 ^ 16, whole numbers end in `.0`, ties go to
the even digit. -/
def json : Layout :=
  ⟨fun e => decide (-5 ≤ e) && decide (e < 16), true, .even⟩

/-- A run of zeros. -/
def zeros (n : Nat) : List Char :=
  List.replicate n '0'

/-- Digits with a point behind the first `point` of them; zeros fill up both ends. -/
def placePoint (pointZero : Bool) (ds : List Char) (point : Int) : List Char :=
  if point ≤ 0 then '0' :: '.' :: (zeros (-point).toNat ++ ds)
  else if point < ds.length then ds.take point.toNat ++ '.' :: ds.drop point.toNat
  else ds ++ zeros (point.toNat - ds.length) ++ (if pointZero then ['.', '0'] else [])

/-- One digit, the others behind a point, and the exponent with its sign. -/
def placeExponent (ds : List Char) (e : Int) : List Char :=
  let mantissa := match ds with
    | [] => []
    | [d] => [d]
    | d :: rest => d :: '.' :: rest
  let sign := if 0 ≤ e then '+' else '-'
  mantissa ++ 'e' :: sign :: Nat.toDigits 10 e.natAbs

/-- The text of a decimal number. -/
def ofDecimal (l : Layout) (d : Decimal) : List Char :=
  if d.digits = 0 then if l.pointZero then ['0', '.', '0'] else ['0']
  else
    let ds := Nat.toDigits 10 d.digits
    let point := (ds.length : Int) + d.exponent
    if l.positional (point - 1) then placePoint l.pointZero ds point
    else placeExponent ds (point - 1)

/-- The text of a finite number, its sign first. -/
def finite (l : Layout) (x : Binary64) : List Char :=
  (if x.isNegative then ['-'] else []) ++ l.ofDecimal (Decimal.shortest l.tie x.magnitude)

end Layout

/-- The text of a number in SQL and wherever values are displayed. -/
def Binary64.text (x : Binary64) : String :=
  if x.isNaN then "NaN"
  else if x.isFinite then String.ofList (Layout.plain.finite x)
  else if x.isNegative then "-inf" else "inf"

example : Binary64.text ⟨0x3FF8000000000000⟩ = "1.5" := by decide +kernel
example : Binary64.text ⟨0x8000000000000000⟩ = "-0" := by decide +kernel
example : String.ofList (Layout.json.finite ⟨0x43E0000000000000⟩) = "9.223372036854776e+18" := by
  decide +kernel
example : String.ofList (Layout.json.finite ⟨0x3EE4F8B588E368F1⟩) = "0.00001" := by
  decide +kernel

end SelectSql
