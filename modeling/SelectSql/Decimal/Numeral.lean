import SelectSql.Decimal.Binary64

/-!
# SelectSql.Decimal.Numeral

Decimal numerals as they stand in texts: runs of digits, a fraction, an exponent.
The document readers take a numeral apart with their own grammars and meet in
`Numeral`, which knows the exact decimal value.
-/

namespace SelectSql

/-- A digit from 0 to 9. -/
def isDigit (c : Char) : Bool :=
  c.isDigit

/-- The number written by decimal digits, most significant first. -/
def digitsValue (ds : List Char) : Nat :=
  ds.foldl (fun n c => 10 * n + (c.toNat - '0'.toNat)) 0

/-- Splits a text behind its leading digits. -/
def spanDigits (cs : List Char) : List Char × List Char :=
  (cs.takeWhile isDigit, cs.dropWhile isDigit)

/-- A numeral: its sign, the digits before and behind the point, and its exponent.
Without point and exponent it is `whole`. -/
structure Numeral where
  negative : Bool
  digits : List Char
  fraction : List Char
  exponent : Int
  whole : Bool

namespace Numeral

/-- The nearest floating-point number. -/
def toBinary64 (n : Numeral) : Binary64 :=
  Binary64.ofDecimal n.negative (digitsValue (n.digits ++ n.fraction))
    (n.exponent - n.fraction.length)

/-- The value of a whole numeral. -/
def toInt (n : Numeral) : Int :=
  if n.negative then -(digitsValue n.digits : Int) else digitsValue n.digits

/-- An exponent: the mark `e` or `E`, a sign, digits. `none` means that the mark is not
followed by digits; without a mark there is no exponent. -/
def exponent? : List Char → Option (Option Int × List Char)
  | [] => some (none, [])
  | c :: cs =>
    if c = 'e' ∨ c = 'E' then
      let (negative, cs) := match cs with
        | '-' :: cs => (true, cs)
        | '+' :: cs => (false, cs)
        | cs => (false, cs)
      match spanDigits cs with
      | ([], _) => none
      | (ds, rest) =>
        let e : Int := digitsValue ds
        some (some (if negative then -e else e), rest)
    else some (none, c :: cs)

/-- A fraction: a point and digits. `none` means that the point is not followed by
digits; without a point there is no fraction. -/
def fraction? : List Char → Option (Option (List Char) × List Char)
  | '.' :: cs =>
    match spanDigits cs with
    | ([], _) => none
    | (ds, rest) => some (some ds, rest)
  | cs => some (none, cs)

/-- Fraction and exponent behind the digits `ds`. -/
def behind? (negative : Bool) (ds cs : List Char) : Option (Numeral × List Char) := do
  let (fraction, cs) ← fraction? cs
  let (exponent, cs) ← exponent? cs
  return (⟨negative, ds, fraction.getD [], exponent.getD 0,
    fraction.isNone && exponent.isNone⟩, cs)

end Numeral

/-- The number that a text writes behind its sign: a decimal, with digits on at least one
side of its point, or one of the words for what is no finite number. -/
def Binary64.ofUnsigned? (negative : Bool) (cs : List Char) : Option Binary64 :=
  match String.ofList (cs.map Char.toLower) with
  | "nan" => some .nan
  | "inf" | "infinity" => some (.infinity negative)
  | _ =>
    let (ds, cs) := spanDigits cs
    let (fraction, cs) := match cs with
      | '.' :: cs => spanDigits cs
      | cs => ([], cs)
    match ds ++ fraction, Numeral.exponent? cs with
    | _ :: _, some (exponent, []) =>
      some (Numeral.toBinary64 ⟨negative, ds, fraction, exponent.getD 0, false⟩)
    | _, _ => none

/-- The number that a text writes. -/
def Binary64.ofText? (s : String) : Option Binary64 :=
  match s.toList with
  | '-' :: cs => ofUnsigned? true cs
  | '+' :: cs => ofUnsigned? false cs
  | cs => ofUnsigned? false cs

end SelectSql
