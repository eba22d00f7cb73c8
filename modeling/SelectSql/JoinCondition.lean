import SelectSql.Operator
import SelectSql.Text.Alphanumeric
import SelectSql.Text.Quoted

/-!
# SelectSql.JoinCondition

One comparison of an ON clause, `left operator right`, and its reader.

Design points:

* **The left side is a column reference**, the right side a reference, a number or a
  quoted literal. Neither is looked into any further.
* **Blanks between the parts are optional**, so the left side ends where its
  characters end and an operator word may follow it directly only behind a blank.
* **A text that stops following the grammar is reported with the byte at which the
  first missing part would have to start.**
-/

namespace SelectSql

/-- A comparison between two operands. -/
structure JoinCondition where
  left : String
  op : Operator
  right : String
deriving DecidableEq

namespace JoinCondition

/-- The condition in SQL. -/
def text (c : JoinCondition) : String :=
  s!"{c.left} {c.op.symbol} {c.right}"

/-! ## Reading -/

/-- The bytes of a text in UTF-8. -/
def byteLength : List Char → Nat
  | [] => 0
  | c :: cs => c.utf8Size + byteLength cs

/-- A quoted literal or an unquoted operand, as it is spelled, and the text behind it. -/
def operand? (cs : List Char) : Option (List Char × List Char) :=
  match cs with
  | '\'' :: rest => (Text.Quoted.body? rest).map fun p => (Text.Quoted.encode p.1, p.2)
  | cs =>
    match cs.takeWhile Text.isOperandChar with
    | [] => none
    | right => some (right, cs.dropWhile Text.isOperandChar)

/-- A part of the grammar is missing in front of `rest`. -/
def invalid (input rest : List Char) : QueryError :=
  .parse (byteLength input - byteLength rest)
    s!"Invalid join condition '{String.ofList input}'"

/-- The condition is complete, but `rest` follows it. -/
def trailing (input rest : List Char) : QueryError :=
  .parse (byteLength input - byteLength rest)
    s!"Unexpected trailing content: '{String.ofList rest}'"

/-- The condition that a trimmed text writes. -/
def read (input : List Char) : Except QueryError JoinCondition :=
  let left := input.takeWhile Text.isReferenceChar
  if left.isEmpty then .error (invalid input input)
  else
    let atOperator := (input.dropWhile Text.isReferenceChar).dropWhile Text.isSpacing
    match Operator.read? atOperator with
    | none => .error (invalid input atOperator)
    | some (op, behind) =>
      let atOperand := behind.dropWhile Text.isSpacing
      match operand? atOperand with
      | none => .error (invalid input atOperand)
      | some (right, behind) =>
        let rest := behind.dropWhile Text.isSpacing
        if rest.isEmpty then .ok ⟨String.ofList left, op, String.ofList right⟩
        else .error (trailing input rest)

/-- The condition that a text writes; blanks around it are ignored. The words of its operator
are compared in ASCII case only, so nothing is said about a text with U+212A
(`Operator.word?`). -/
def ofText (text : String) : Except QueryError JoinCondition :=
  read (Text.trimChars text.toList)

end JoinCondition

end SelectSql
