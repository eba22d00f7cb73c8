import SelectSql.Data.Json.Reader

/-!
# SelectSql.Data.Toml.Scalar

The scalars of TOML 1.0: strings in their four spellings, integers in four bases,
floats, and dates. A reader gets the text behind what it was recognised by and
answers with a value and the rest of the text.

Design points:

* **Line ends in strings become line feeds.**
* **Underscores stand between digits only.**
* **A number too large for 64 bits is refused**, and so is a float that overflows to
  the positive infinity; one that overflows to the negative infinity is that.
* **Dates are checked and forgotten**: no field of a definition or of a configuration
  is a date, so a date has no value (`Tree.unreadable`).
-/

namespace SelectSql.Toml

/-- Space and tab. -/
def isGap (c : Char) : Bool :=
  c == ' ' || c == '\t'

/-- Drops leading spaces and tabs. -/
def skipGap (cs : List Char) : List Char :=
  cs.dropWhile isGap

/-- A character that may stand in a comment or a string: a tab or no control character. -/
def isPlain (c : Char) : Bool :=
  c == '\t' || (0x20 ≤ c.toNat && c != '\x7f')

/-- A line end in front of a text. -/
def newline? : List Char → Option (List Char)
  | '\n' :: cs => some cs
  | '\r' :: '\n' :: cs => some cs
  | _ => none

/-! ## Strings -/

/-- The character of a one-letter escape. -/
def escaped? : Char → Option Char
  | 'b' => some '\x08'
  | 'f' => some '\x0c'
  | 'n' => some '\n'
  | 'r' => some '\r'
  | 't' => some '\t'
  | '"' => some '"'
  | '\\' => some '\\'
  | _ => none

/-- A character by its number, unless it is half a surrogate pair or beyond Unicode. -/
def charAt? (n : Nat) : Option Char :=
  if h : n.isValidChar then some (Char.ofNatAux n h) else none

/-- The character of an escape behind its backslash, and the rest. -/
def escape? : List Char → Option (Char × List Char)
  | 'u' :: a :: b :: c :: d :: rest => do
    let n ← Json.hexNumber? [a, b, c, d]
    return (← charAt? n, rest)
  | 'U' :: a :: b :: c :: d :: e :: f :: g :: h :: rest => do
    let n ← Json.hexNumber? [a, b, c, d, e, f, g, h]
    return (← charAt? n, rest)
  | c :: rest => (escaped? c).map (·, rest)
  | [] => none

/-- A text with a character in front. -/
def consText (c : Char) (p : List Char × List Char) : List Char × List Char :=
  (c :: p.1, p.2)

/-- A basic string behind its opening quote. -/
def basic? : Nat → List Char → Option (List Char × List Char)
  | 0, _ => none
  | _ + 1, [] => none
  | _ + 1, '"' :: rest => some ([], rest)
  | fuel + 1, '\\' :: rest => do
    let (c, rest) ← escape? rest
    (basic? fuel rest).map (consText c)
  | fuel + 1, c :: rest => if isPlain c then (basic? fuel rest).map (consText c) else none

/-- A literal string behind its opening quote. -/
def literal? : List Char → Option (List Char × List Char)
  | [] => none
  | '\'' :: rest => some ([], rest)
  | c :: rest => if isPlain c then (literal? rest).map (consText c) else none

/-- Drops the blanks and line ends behind a backslash that ends a line; at least one
line end is needed. -/
def skipLineBreak? (cs : List Char) : Option (List Char) := do
  let rest ← newline? (skipGap cs)
  return dropLayout rest
where
  /-- Drops spaces, tabs and line ends. -/
  dropLayout : List Char → List Char
    | '\r' :: '\n' :: cs => dropLayout cs
    | c :: cs => if isGap c || c == '\n' then dropLayout cs else c :: cs
    | [] => []

/-- A string over several lines behind its opening quotes and their line end. One or two
quotes belong to the string; of three and more the last three close it, and at most two
stand in front of those. Only a basic string has `escapes`. -/
def multiline? (quote : Char) (escapes : Bool) : Nat → List Char → Option (List Char × List Char)
  | 0, _ => none
  | _ + 1, [] => none
  | fuel + 1, c :: rest =>
    if c = quote then
      let more := rest.takeWhile (· == quote)
      if more.length < 2 then (multiline? quote escapes fuel rest).map (consText c)
      else
        let kept := min (more.length - 2) 2
        some (List.replicate kept quote, rest.drop (kept + 2))
    else if c = '\\' ∧ escapes = true then
      match skipLineBreak? rest with
      | some rest => multiline? quote escapes fuel rest
      | none =>
        match escape? rest with
        | some (e, rest) => (multiline? quote escapes fuel rest).map (consText e)
        | none => none
    else match newline? (c :: rest) with
      | some rest => (multiline? quote escapes fuel rest).map (consText '\n')
      | none => if isPlain c then (multiline? quote escapes fuel rest).map (consText c) else none

/-- The text behind a line end, if there is one, in front of a text. -/
def skipNewline (cs : List Char) : List Char :=
  (newline? cs).getD cs

/-- A string in any of the four spellings. -/
def string? (cs : List Char) : Option (List Char × List Char) :=
  match cs with
  | '"' :: '"' :: '"' :: rest => multiline? '"' true (rest.length + 1) (skipNewline rest)
  | '\'' :: '\'' :: '\'' :: rest => multiline? '\'' false (rest.length + 1) (skipNewline rest)
  | '"' :: rest => basic? (rest.length + 1) rest
  | '\'' :: rest => literal? rest
  | _ => none

/-! ## Numbers -/

/-- Digits behind a digit, with single underscores between them. -/
def moreDigits? (digit : Char → Bool) : List Char → Option (List Char × List Char)
  | [] => some ([], [])
  | '_' :: c :: rest =>
    if digit c then (moreDigits? digit rest).map (consText c) else none
  | c :: rest =>
    if digit c then (moreDigits? digit rest).map (consText c)
    else if c = '_' then none
    else some ([], c :: rest)

/-- At least one digit, with single underscores between digits. -/
def digits? (digit : Char → Bool) : List Char → Option (List Char × List Char)
  | c :: rest => if digit c then (moreDigits? digit rest).map (consText c) else none
  | [] => none

/-- A sign in front of a text. -/
def sign : List Char → Bool × List Char
  | '-' :: cs => (true, cs)
  | '+' :: cs => (false, cs)
  | cs => (false, cs)

/-- Decimal digits without a leading zero. -/
def decimalDigits? : List Char → Option (List Char × List Char)
  | '0' :: rest => some (['0'], rest)
  | cs => digits? isDigit cs

/-- The node of an integer of 64 bits. -/
def ofInteger (n : Int) : Option Tree :=
  if Int64.minValue.toInt ≤ n ∧ n ≤ Int64.maxValue.toInt then some (.int n) else none

/-- The number written in a base. -/
def valueInBase (base : Nat) (ds : List Char) : Nat :=
  ds.foldl (fun n c => base * n + (Json.hexValue? c).getD 0) 0

/-- A digit of a base up to sixteen. -/
def isDigitOf (base : Nat) (c : Char) : Bool :=
  match Json.hexValue? c with
  | some n => n < base
  | none => false

/-- An integer in base 16, 8 or 2, or a decimal integer with an optional sign. -/
def integer? (cs : List Char) : Option (Tree × List Char) :=
  match cs with
  | '0' :: 'x' :: rest => inBase 16 rest
  | '0' :: 'o' :: rest => inBase 8 rest
  | '0' :: 'b' :: rest => inBase 2 rest
  | cs => do
    let (negative, cs) := sign cs
    let (ds, rest) ← decimalDigits? cs
    let t ← ofInteger (if negative then -(digitsValue ds : Int) else digitsValue ds)
    return (t, rest)
where
  /-- Digits of a base as a node. -/
  inBase (base : Nat) (cs : List Char) : Option (Tree × List Char) := do
    let (ds, rest) ← digits? (isDigitOf base) cs
    return (← ofInteger (valueInBase base ds), rest)

/-- An exponent behind its mark. -/
def exponent? (cs : List Char) : Option (Int × List Char) := do
  let (negative, cs) := sign cs
  let (ds, rest) ← digits? isDigit cs
  return (if negative then -(digitsValue ds : Int) else digitsValue ds, rest)

/-- The part of a float that makes it one: a fraction, an exponent, or both. -/
def floatTail? : List Char → Option ((List Char × Int) × List Char)
  | '.' :: cs => do
    let (fraction, rest) ← digits? isDigit cs
    match rest with
    | 'e' :: cs | 'E' :: cs =>
      let (e, rest) ← exponent? cs
      return ((fraction, e), rest)
    | rest => return ((fraction, 0), rest)
  | 'e' :: cs | 'E' :: cs => do
    let (e, rest) ← exponent? cs
    return (([], e), rest)
  | _ => none

/-- A float: decimal digits with a fraction or an exponent, or one of the words `inf`
and `nan`, with an optional sign. -/
def float? (cs : List Char) : Option (Tree × List Char) :=
  let (negative, cs) := sign cs
  match cs with
  | 'i' :: 'n' :: 'f' :: rest => some (.float (Binary64.infinity negative), rest)
  | 'n' :: 'a' :: 'n' :: rest => some (.float Binary64.nan, rest)
  | cs => do
    let (ds, cs) ← decimalDigits? cs
    let ((fraction, e), rest) ← floatTail? cs
    let x := Numeral.toBinary64 ⟨negative, ds, fraction, e, false⟩
    if x = Binary64.infinity false then none else return (.float x, rest)

/-! ## Dates and times -/

/-- A number of exactly `count` decimal digits. -/
def fixedDigits? (count : Nat) (cs : List Char) : Option (Nat × List Char) :=
  let ds := cs.take count
  if ds.length = count ∧ ds.all isDigit then some (digitsValue ds, cs.drop count) else none

/-- The text behind an expected character. -/
def expect? (c : Char) : List Char → Option (List Char)
  | [] => none
  | d :: cs => if c = d then some cs else none

/-- How many days a month has. -/
def daysIn (year month : Nat) : Nat :=
  if month = 2 then
    if year % 4 = 0 ∧ (year % 100 ≠ 0 ∨ year % 400 = 0) then 29 else 28
  else if month = 4 ∨ month = 6 ∨ month = 9 ∨ month = 11 then 30 else 31

/-- The text behind a calendar date. -/
def date? (cs : List Char) : Option (List Char) := do
  let (year, cs) ← fixedDigits? 4 cs
  let (month, cs) ← fixedDigits? 2 (← expect? '-' cs)
  let (day, cs) ← fixedDigits? 2 (← expect? '-' cs)
  if 1 ≤ month ∧ month ≤ 12 ∧ 1 ≤ day ∧ day ≤ daysIn year month then some cs else none

/-- The text behind hours and minutes. -/
def hourMinute? (cs : List Char) : Option (List Char) := do
  let (hour, cs) ← fixedDigits? 2 cs
  let (minute, cs) ← fixedDigits? 2 (← expect? ':' cs)
  if hour ≤ 23 ∧ minute ≤ 59 then some cs else none

/-- The text behind a time of day; seconds may have a fraction and a leap second. -/
def time? (cs : List Char) : Option (List Char) := do
  let (second, cs) ← fixedDigits? 2 (← expect? ':' (← hourMinute? cs))
  if 60 < second then none
  else match cs with
    | '.' :: c :: rest => if isDigit c then some (rest.dropWhile isDigit) else some cs
    | cs => some cs

/-- The text behind the offset from universal time that may follow a time. -/
def skipOffset? : List Char → Option (List Char)
  | 'Z' :: cs | 'z' :: cs => some cs
  | '+' :: cs | '-' :: cs => hourMinute? cs
  | cs => some cs

/-- The text behind a date, a time, or a date with a time. -/
def dateTime? (cs : List Char) : Option (List Char) :=
  match date? cs with
  | some rest =>
    match rest with
    | c :: behind =>
      if c = 'T' ∨ c = 't' ∨ c = ' ' then
        match time? behind with
        | some rest => skipOffset? rest
        | none => some rest
      else some rest
    | [] => some rest
  | none => time? cs

/-- A date, a float or an integer. -/
def number? (cs : List Char) : Option (Tree × List Char) :=
  match dateTime? cs with
  | some rest => some (.unreadable, rest)
  | none =>
    match float? cs with
    | some found => some found
    | none => integer? cs

end SelectSql.Toml
