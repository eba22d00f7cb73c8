import SelectSql.Text.Blank
import SelectSql.Error

/-!
# SelectSql.Operator

Comparison operators and the words that combine conditions, with the readers of
their tokens.

Design points:

* **Tokens are tried in a fixed order**, longer words before their beginnings, and
  the first that stands in front of the text is taken. So `<=` is never read as `<`
  with something behind it.
* **Letters are compared without regard to ASCII case.** Between `NOT` and `LIKE`
  stands at least one space, tab or line end.
-/

namespace SelectSql

/-- The comparison operators. -/
inductive Operator
  | eq | ne | gt | ge | lt | le
  | like | notLike | ilike | notIlike
deriving DecidableEq

namespace Operator

/-- The operator in SQL. -/
def symbol : Operator → String
  | .eq => "="
  | .ne => "<>"
  | .gt => ">"
  | .ge => ">="
  | .lt => "<"
  | .le => "<="
  | .like => "LIKE"
  | .notLike => "NOT LIKE"
  | .ilike => "ILIKE"
  | .notIlike => "NOT ILIKE"

/-- Whether the operator matches a pattern. -/
def isPattern : Operator → Bool
  | .like | .notLike | .ilike | .notIlike => true
  | _ => false

/-! ## Reading -/

/-- The text behind a word that is given in small letters. Only the case of ASCII letters is
ignored. Nothing is said about U+212A, the Kelvin sign: it is the one other character whose
small letter, `k`, is a letter of a word. -/
def word? : List Char → List Char → Option (List Char)
  | [], cs => some cs
  | w :: ws, c :: cs => if c.toLower = w then word? ws cs else none
  | _ :: _, [] => none

/-- The text behind `not`, at least one blank, and a word. -/
def notWord? (word cs : List Char) : Option (List Char) := do
  let cs ← word? ['n', 'o', 't'] cs
  if (cs.takeWhile Text.isSpacing).isEmpty then none
  else word? word (cs.dropWhile Text.isSpacing)

/-- The spellings of the operators in the order in which they are tried. -/
def spellings : List (Operator × (List Char → Option (List Char))) := [
  (.notIlike, notWord? ['i', 'l', 'i', 'k', 'e']),
  (.notLike, notWord? ['l', 'i', 'k', 'e']),
  (.ilike, word? ['i', 'l', 'i', 'k', 'e']),
  (.like, word? ['l', 'i', 'k', 'e']),
  (.ne, word? ['<', '>']),
  (.ne, word? ['!', '=']),
  (.ge, word? ['>', '=']),
  (.le, word? ['<', '=']),
  (.eq, word? ['=']),
  (.gt, word? ['>']),
  (.lt, word? ['<'])]

/-- The operator in front of a text, and the text behind it. -/
def read? (cs : List Char) : Option (Operator × List Char) :=
  spellings.findSome? fun s => (s.2 cs).map (s.1, ·)

/-- The operator that a token is, blanks around it and the case of its ASCII letters ignored.
Nothing is said about a token with U+212A (`word?`). -/
def ofToken (token : String) : Except QueryError Operator :=
  match read? (Text.trimChars token.toList) with
  | some (op, []) => .ok op
  | _ => .error (.unsupportedOperator token)

end Operator

/-! ## Connectives -/

/-- The words that combine two conditions. -/
inductive Connective
  | and | or
deriving DecidableEq

namespace Connective

/-- The word in SQL. -/
def keyword : Connective → String
  | .and => "AND"
  | .or => "OR"

/-- The connective that a token is, blanks around it and the case of its letters ignored. -/
def ofToken? (token : String) : Option Connective :=
  match (Text.trimChars token.toList).map Char.toLower with
  | ['a', 'n', 'd'] => some .and
  | ['o', 'r'] => some .or
  | _ => none

end Connective

/-! ## Aggregates and joins -/

/-- The aggregate functions of a projection. -/
inductive Aggregate
  | count | min | max | sum
deriving DecidableEq

/-- The function in SQL. -/
def Aggregate.keyword : Aggregate → String
  | .count => "COUNT"
  | .min => "MIN"
  | .max => "MAX"
  | .sum => "SUM"

/-- The kinds of join. -/
inductive JoinKind
  | inner | left | right | full | cross
deriving DecidableEq

/-- The kind in SQL. -/
def JoinKind.keyword : JoinKind → String
  | .inner => "INNER"
  | .left => "LEFT"
  | .right => "RIGHT"
  | .full => "FULL"
  | .cross => "CROSS"

end SelectSql
