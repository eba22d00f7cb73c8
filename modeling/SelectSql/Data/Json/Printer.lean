import SelectSql.Data.Tree
import SelectSql.Decimal.Layout

/-!
# SelectSql.Data.Json.Printer

The JSON text of a document, on one line (`Tree.json`) or indented by two spaces
(`Tree.prettyJson`). Numbers that JSON cannot write become `null`.
-/

namespace SelectSql.Json

/-- The lower-case hexadecimal digit of a number below sixteen. -/
def hexDigit (n : Nat) : Char :=
  Nat.digitChar n

/-- A character inside a JSON string: quotes, backslashes and control characters are
escaped, with a short escape where there is one. -/
def escape (c : Char) : List Char :=
  match c with
  | '"' => ['\\', '"']
  | '\\' => ['\\', '\\']
  | '\n' => ['\\', 'n']
  | '\r' => ['\\', 'r']
  | '\t' => ['\\', 't']
  | '\x08' => ['\\', 'b']
  | '\x0c' => ['\\', 'f']
  | c =>
    if c.toNat < 0x20 then
      ['\\', 'u', '0', '0', hexDigit (c.toNat / 16), hexDigit (c.toNat % 16)]
    else [c]

/-- A JSON string. -/
def string (s : String) : String :=
  String.ofList ('"' :: (s.toList.flatMap escape ++ ['"']))

/-- A JSON number, or `null` where there is none. -/
def number (x : Binary64) : String :=
  if x.isFinite then String.ofList (Layout.json.finite x) else "null"

/-- Items on one line, or on lines of their own between two brackets. -/
def bracket (indent : Option Nat) (first last : String) (items : List String) : String :=
  match items, indent with
  | [], _ => first ++ last
  | items, none => first ++ ",".intercalate items ++ last
  | items, some n =>
    let line := "\n".pushn ' ' (n + 2)
    first ++ line ++ ("," ++ line).intercalate items ++ "\n".pushn ' ' n ++ last

mutual

/-- The text of a document that starts at a column of an indented text, or on one line. -/
def print (indent : Option Nat) : Tree → String
  | .null => "null"
  | .bool b => if b then "true" else "false"
  | .int n => toString n
  | .float x => number x
  | .text s => string s
  | .list items => bracket indent "[" "]" (printItems (indent.map (· + 2)) items)
  | .record entries =>
    bracket indent "\x7b" "\x7d" (printEntries (indent.map (· + 2)) entries)
  | .unreadable => "null"

/-- The texts of the items of a list. -/
def printItems (indent : Option Nat) : List Tree → List String
  | [] => []
  | t :: ts => print indent t :: printItems indent ts

/-- The texts of the entries of a record. -/
def printEntries (indent : Option Nat) : List (String × Tree) → List String
  | [] => []
  | (k, t) :: rest =>
    (string k ++ (if indent.isSome then ": " else ":") ++ print indent t)
      :: printEntries indent rest

end

end SelectSql.Json

namespace SelectSql.Tree

/-- The JSON text on one line. -/
def json (t : Tree) : String :=
  Json.print none t

/-- The JSON text on several lines, indented by two spaces. -/
def prettyJson (t : Tree) : String :=
  Json.print (some 0) t

end SelectSql.Tree
