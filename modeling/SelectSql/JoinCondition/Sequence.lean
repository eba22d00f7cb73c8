import SelectSql.JoinCondition

/-!
# SelectSql.JoinCondition.Sequence

The ON conditions of a join as the caller gives them, and the list they resolve to.

Design points:

* **A sequence mixes conditions and the words AND and OR.** A word applies to the next
  condition; of several words the last one counts, without a word it is AND. Words in
  front of the first condition and behind the last have no effect.
* **The first item that cannot be read is the error**, and a sequence without a
  condition is an error of its own.
-/

namespace SelectSql

/-- An item of a sequence: operands with an operator token, or a text to be read. -/
inductive ConditionItem
  | triple (left op right : String)
  | text (s : String)

/-- The conditions of a join: a single one, or a sequence. -/
inductive ConditionSpec
  | single (left op right : String)
  | sequence (items : List ConditionItem)

/-- A condition of an ON clause with the word that ties it to the one before. -/
structure JoinTerm where
  condition : JoinCondition
  connective : Option Connective
deriving DecidableEq

namespace JoinCondition

/-- The condition of two operands and an operator token. -/
def ofTriple (left op right : String) : Except QueryError JoinCondition :=
  (Operator.ofToken op).map fun op => ⟨left, op, right⟩

/-- The condition of a text inside a sequence. -/
def ofSequenceText (s : String) : Except QueryError JoinCondition :=
  match ofText s with
  | .ok c => .ok c
  | .error e =>
    .error (.malformedCondition s!"'{s}' is neither a condition nor AND/OR ({e.message})")

end JoinCondition

namespace ConditionItem

/-- The connective that an item is, if it is one. -/
def connective? : ConditionItem → Option Connective
  | .triple .. => none
  | .text s => Connective.ofToken? s

/-- The condition that an item is. -/
def condition : ConditionItem → Except QueryError JoinCondition
  | .triple left op right => JoinCondition.ofTriple left op right
  | .text s => JoinCondition.ofSequenceText s

/-- The terms of a sequence. `first` tells that no condition has been read yet, and
`pending` is the word that the next one gets. -/
def resolve : Bool → Connective → List ConditionItem → Except QueryError (List JoinTerm)
  | _, _, [] => .ok []
  | first, pending, item :: items =>
    match item.connective? with
    | some word => resolve first word items
    | none =>
      match item.condition with
      | .error e => .error e
      | .ok c => (resolve false .and items).map
          (⟨c, if first then none else some pending⟩ :: ·)

end ConditionItem

namespace ConditionSpec

/-- The terms of an ON clause, at least one. -/
def resolve : ConditionSpec → Except QueryError (List JoinTerm)
  | .single left op right =>
    (JoinCondition.ofTriple left op right).map fun c => [⟨c, none⟩]
  | .sequence items =>
    match ConditionItem.resolve true .and items with
    | .error e => .error e
    | .ok [] => .error (.malformedCondition "no condition found in join condition sequence")
    | .ok terms => .ok terms

end ConditionSpec

end SelectSql
