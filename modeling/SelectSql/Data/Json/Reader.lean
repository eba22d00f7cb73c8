import SelectSql.Data.Tree
import SelectSql.Decimal.Numeral

/-!
# SelectSql.Data.Json.Reader

Reads a JSON text as a document, or refuses it. The grammar is that of JSON: blanks
are space, tab and line ends, numbers have no leading zeros, strings hold no bare
control characters, and nothing follows the document but blanks.

Design points:

* **A numeral is an integer if it has neither fraction nor exponent**, and is not
  the negative zero.
* **Half a surrogate pair and a number out of range are well formed** and give an
  `unreadable` node.
* **Recursion is bounded by fuel** that `Tree.ofJson?` computes from the length of
  the text; every step reads at least one character, so it never runs out.
-/

namespace SelectSql.Json

/-- The blanks of JSON. -/
def isSpace (c : Char) : Bool :=
  c == ' ' || c == '\n' || c == '\t' || c == '\r'

/-- Drops leading blanks. -/
def skipSpace (cs : List Char) : List Char :=
  cs.dropWhile isSpace

/-! ## Numbers -/

/-- The document of a numeral. A number that is no integer is read exactly: of all floating-point
numbers it is the one nearest to what the numeral writes (`Numeral.toBinary64`). A reader that
may be off in the last place is not described by this. -/
def ofNumeral (n : Numeral) : Tree :=
  let x := n.toBinary64
  if n.whole && !(n.negative && n.toInt == 0) then Tree.ofInt n.toInt
  else if x.isFinite then .float x else .unreadable

/-- The digits before the point: a zero alone, or digits that start with no zero. -/
def wholeDigits? (cs : List Char) : Option (List Char × List Char) :=
  match cs with
  | '0' :: rest =>
    match rest with
    | c :: _ => if isDigit c then none else some (['0'], rest)
    | [] => some (['0'], rest)
  | cs =>
    match spanDigits cs with
    | ([], _) => none
    | found => some found

/-- A number. -/
def number? (cs : List Char) : Option (Tree × List Char) := do
  let (negative, cs) := match cs with
    | '-' :: cs => (true, cs)
    | cs => (false, cs)
  let (ds, cs) ← wholeDigits? cs
  let (n, rest) ← Numeral.behind? negative ds cs
  return (ofNumeral n, rest)

/-! ## Strings -/

/-- The value of a hexadecimal digit. -/
def hexValue? (c : Char) : Option Nat :=
  if isDigit c then some (c.toNat - '0'.toNat)
  else if 'a' ≤ c ∧ c ≤ 'f' then some (c.toNat - 'a'.toNat + 10)
  else if 'A' ≤ c ∧ c ≤ 'F' then some (c.toNat - 'A'.toNat + 10)
  else none

/-- The number written by hexadecimal digits. -/
def hexNumber? (cs : List Char) : Option Nat :=
  cs.foldlM (fun n c => (hexValue? c).map (16 * n + ·)) 0

/-- The character of a one-letter escape. -/
def escaped? : Char → Option Char
  | '"' => some '"'
  | '\\' => some '\\'
  | '/' => some '/'
  | 'b' => some '\x08'
  | 'f' => some '\x0c'
  | 'n' => some '\n'
  | 'r' => some '\r'
  | 't' => some '\t'
  | _ => none

/-- Whether a code unit is the first half of a surrogate pair. -/
def isHighSurrogate (n : Nat) : Bool :=
  0xD800 ≤ n && n < 0xDC00

/-- Whether a code unit is the second half of a surrogate pair. -/
def isLowSurrogate (n : Nat) : Bool :=
  0xDC00 ≤ n && n < 0xE000

/-- Puts a character in front of a string that was read behind it. -/
def cons (c : Char) (p : Option (List Char) × List Char) : Option (List Char) × List Char :=
  (p.1.map (c :: ·), p.2)

/-- A string behind its opening quote, and what follows it. The string is `none` if it
holds half a surrogate pair. -/
def string? : List Char → Option (Option (List Char) × List Char)
  | [] => none
  | '"' :: rest => some (some [], rest)
  | '\\' :: 'u' :: a :: b :: c :: d :: rest =>
    match hexNumber? [a, b, c, d] with
    | none => none
    | some high =>
      if isHighSurrogate high then
        match rest with
        | '\\' :: 'u' :: a' :: b' :: c' :: d' :: behind =>
          match hexNumber? [a', b', c', d'] with
          | none => none
          | some low =>
            if isLowSurrogate low then
              (string? behind).map
                (cons (Char.ofNat (0x10000 + (high - 0xD800) * 0x400 + (low - 0xDC00))))
            else (string? behind).map fun p => (none, p.2)
        | rest => (string? rest).map fun p => (none, p.2)
      else if isLowSurrogate high then (string? rest).map fun p => (none, p.2)
      else (string? rest).map (cons (Char.ofNat high))
  | '\\' :: e :: rest =>
    match escaped? e with
    | none => none
    | some c => (string? rest).map (cons c)
  | c :: rest => if c.toNat < 0x20 then none else (string? rest).map (cons c)

/-! ## Documents -/

/-- The node of a string. -/
def ofString : Option (List Char) → Tree
  | some cs => .text (String.ofList cs)
  | none => .unreadable

/-- The node of an object; a key without a value spoils the whole object. -/
def ofMembers (members : List (Option (List Char) × Tree)) : Tree :=
  match members.mapM fun m => m.1.map fun k => (String.ofList k, m.2) with
  | some entries => .record entries
  | none => .unreadable

mutual

/-- A document in front of a text. -/
def value? : Nat → List Char → Option (Tree × List Char)
  | 0, _ => none
  | fuel + 1, cs =>
    match skipSpace cs with
    | '\x7b' :: cs =>
      match skipSpace cs with
      | '\x7d' :: cs => some (.record [], cs)
      | cs => (members? fuel cs).map fun p => (ofMembers p.1, p.2)
    | '[' :: cs =>
      match skipSpace cs with
      | ']' :: cs => some (.list [], cs)
      | cs => (items? fuel cs).map fun p => (.list p.1, p.2)
    | '"' :: cs => (string? cs).map fun p => (ofString p.1, p.2)
    | 't' :: 'r' :: 'u' :: 'e' :: cs => some (.bool true, cs)
    | 'f' :: 'a' :: 'l' :: 's' :: 'e' :: cs => some (.bool false, cs)
    | 'n' :: 'u' :: 'l' :: 'l' :: cs => some (.null, cs)
    | cs => number? cs

/-- The items of a list up to its closing bracket. -/
def items? : Nat → List Char → Option (List Tree × List Char)
  | 0, _ => none
  | fuel + 1, cs => do
    let (t, cs) ← value? fuel cs
    match skipSpace cs with
    | ',' :: cs => (items? fuel cs).map fun p => (t :: p.1, p.2)
    | ']' :: cs => some ([t], cs)
    | _ => none

/-- The members of an object up to its closing brace. -/
def members? : Nat → List Char → Option (List (Option (List Char) × Tree) × List Char)
  | 0, _ => none
  | fuel + 1, cs =>
    match skipSpace cs with
    | '"' :: cs => do
      let (key, cs) ← string? cs
      match skipSpace cs with
      | ':' :: cs =>
        let (t, cs) ← value? fuel cs
        match skipSpace cs with
        | ',' :: cs => (members? fuel cs).map fun p => ((key, t) :: p.1, p.2)
        | '\x7d' :: cs => some ([(key, t)], cs)
        | _ => none
      | _ => none
    | _ => none

end

end SelectSql.Json

namespace SelectSql.Tree

/-- The document that a JSON text writes, if it is well formed. -/
def ofJson? (s : String) : Option Tree :=
  let cs := s.toList
  match Json.value? (2 * cs.length + 2) cs with
  | some (t, rest) => if (Json.skipSpace rest).isEmpty then some t else none
  | none => none

end SelectSql.Tree
