import SelectSql.Data.Toml.Table
import SelectSql.Data.Toml.Scalar

/-!
# SelectSql.Data.Toml.Reader

Reads a TOML 1.0 document, or refuses it: key and value pairs, tables, arrays of
tables, inline tables and arrays, with comments and blank lines between them.

Design points:

* **Values are nested at most seventy-nine deep**, and a dotted key has at most
  seventy-nine parts.
* **An inline table is finished by its closing brace**: it becomes a value, which no
  later key or header can extend.
* **Recursion is bounded by fuel** computed from the length of the document; every
  step reads at least one character.
-/

namespace SelectSql.Toml

/-- One more than the nesting depth of a value and the number of parts of a key. -/
def depthLimit : Nat := 80

/-! ## Layout -/

/-- Drops a comment, up to its line end. -/
def skipComment : List Char → List Char
  | '#' :: cs => cs.dropWhile isPlain
  | cs => cs

/-- The text behind the end of a line: blanks, a comment, and a line end or the end of
the document. -/
def lineEnd? (cs : List Char) : Option (List Char) :=
  match skipComment (skipGap cs) with
  | [] => some []
  | cs => newline? cs

/-- Drops blanks, line ends and comments, at most `fuel` times. -/
def skipLines : Nat → List Char → List Char
  | 0, cs => cs
  | fuel + 1, cs =>
    let cs := skipGap cs
    match newline? (skipComment cs) with
    | some rest => skipLines fuel rest
    | none => cs

/-! ## Keys -/

/-- A character of a bare key. -/
def isBareKeyChar (c : Char) : Bool :=
  c.isAlphanum || c == '_' || c == '-'

/-- A bare or quoted key. -/
def simpleKey? (cs : List Char) : Option (String × List Char) :=
  match cs with
  | '"' :: rest => (basic? (rest.length + 1) rest).map fun p => (String.ofList p.1, p.2)
  | '\'' :: rest => (literal? rest).map fun p => (String.ofList p.1, p.2)
  | cs =>
    match cs.takeWhile isBareKeyChar with
    | [] => none
    | key => some (String.ofList key, cs.dropWhile isBareKeyChar)

/-- Keys with dots between them and blanks around each. -/
def dottedKey? : Nat → List Char → Option (List String × List Char)
  | 0, _ => none
  | fuel + 1, cs => do
    let (key, cs) ← simpleKey? (skipGap cs)
    match skipGap cs with
    | '.' :: cs =>
      let (keys, rest) ← dottedKey? fuel cs
      return (key :: keys, rest)
    | cs => return ([key], cs)

/-- A key: the path to its table, and its last part. -/
def key? (cs : List Char) : Option ((List String × String) × List Char) := do
  let (keys, rest) ← dottedKey? (cs.length + 1) cs
  let last ← keys.getLast?
  if keys.length < depthLimit then return ((keys.dropLast, last), rest) else none

/-! ## Values -/

mutual

/-- A value in front of a text. `depth` levels of nesting are left. -/
def value? : Nat → Nat → List Char → Option (Tree × List Char)
  | 0, _, _ => none
  | fuel + 1, depth, cs =>
    match cs with
    | '"' :: _ | '\'' :: _ => (string? cs).map fun p => (.text (String.ofList p.1), p.2)
    | '[' :: rest => if depth = 0 then none else
      (items? fuel (depth - 1) rest).map fun p => (.list p.1, p.2)
    | '\x7b' :: rest => if depth = 0 then none else
      match skipGap rest with
      | '\x7d' :: rest => some (.record [], rest)
      | rest => (pairs? fuel (depth - 1) [] rest).map fun p => (.record (entriesTrees p.1), p.2)
    | 't' :: 'r' :: 'u' :: 'e' :: rest => some (.bool true, rest)
    | 'f' :: 'a' :: 'l' :: 's' :: 'e' :: rest => some (.bool false, rest)
    | cs => number? cs

/-- The items of an array up to its closing bracket. -/
def items? : Nat → Nat → List Char → Option (List Tree × List Char)
  | 0, _, _ => none
  | fuel + 1, depth, cs =>
    match skipLines cs.length cs with
    | ']' :: rest => some ([], rest)
    | cs => do
      let (t, cs) ← value? fuel depth cs
      match skipLines cs.length cs with
      | ',' :: rest => (items? fuel depth rest).map fun p => (t :: p.1, p.2)
      | ']' :: rest => some ([t], rest)
      | _ => none

/-- The pairs of an inline table up to its closing brace, behind those already read. -/
def pairs? : Nat → Nat → Entries → List Char → Option (Entries × List Char)
  | 0, _, _, _ => none
  | fuel + 1, depth, es, cs => do
    let ((path, key), cs) ← key? cs
    let cs ← expect? '=' cs
    let (t, cs) ← value? fuel depth (skipGap cs)
    let es ← es.insert path key t
    match skipGap cs with
    | ',' :: rest => pairs? fuel depth es rest
    | '\x7d' :: rest => some (es, rest)
    | _ => none

end

/-! ## Documents -/

/-- A document while it is read: its tables, and the path of the one opened last. -/
structure Reading where
  entries : Entries
  opened : List String

/-- A header behind its opening brackets, with the brackets that close it. -/
def header? (closing : List Char) (cs : List Char) :
    Option ((List String × String) × List Char) := do
  let (path, cs) ← key? cs
  if closing.isPrefixOf cs then return (path, ← lineEnd? (cs.drop closing.length)) else none

/-- Reads line by line. -/
def lines? : Nat → Reading → List Char → Option Entries
  | 0, _, _ => none
  | fuel + 1, r, cs =>
    match skipGap cs with
    | [] => some r.entries
    | '[' :: '[' :: cs => do
      let ((path, key), rest) ← header? [']', ']'] cs
      lines? fuel ⟨← r.entries.openElement path key, path ++ [key]⟩ rest
    | '[' :: cs => do
      let ((path, key), rest) ← header? [']'] cs
      lines? fuel ⟨← r.entries.openTable path key, path ++ [key]⟩ rest
    | cs =>
      match lineEnd? cs with
      | some rest => lines? fuel r rest
      | none => do
        let ((path, key), cs) ← key? cs
        let cs ← expect? '=' cs
        let (t, cs) ← value? (2 * cs.length + 2) (depthLimit - 1) (skipGap cs)
        lines? fuel { r with entries := ← r.entries.insertAt r.opened path key t }
          (← lineEnd? cs)

end SelectSql.Toml

namespace SelectSql.Tree

/-- The document that a TOML text writes, if it is well formed. A byte order mark in
front of it is skipped. -/
def ofToml? (s : String) : Option Tree :=
  let cs := match s.toList with
    | '\uFEFF' :: cs => cs
    | cs => cs
  (Toml.lines? (cs.length + 1) ⟨[], []⟩ cs).map fun es => .record (Toml.entriesTrees es)

end SelectSql.Tree
