import SelectSql.Data.Tree

/-!
# SelectSql.Data.Record

Reading records and variants from documents. A record is written as an object or
as the list of its fields in their declared order. Entries of an object that are
not declared are skipped unread; a declared field must not occur twice. A variant
without fields is written as its name, or as an object whose only key is the name.

The two document formats differ in two details, collected in `Format`.
-/

namespace SelectSql

/-- Where the document formats differ. -/
structure Format where
  /-- Whether a record written as a list may go on behind its last field. -/
  extraItems : Bool
  /-- What may stand under the name of a variant without fields. -/
  emptyPayload : Tree → Bool

namespace Format

/-- JSON: no extra items, and `null` under the name of a bare variant. -/
def json : Format where
  extraItems := false
  emptyPayload
    | .null => true
    | _ => false

/-- TOML: extra items are skipped; an empty table or array under a bare variant. -/
def toml : Format where
  extraItems := true
  emptyPayload
    | .list [] => true
    | .record [] => true
    | _ => false

end Format

namespace Tree

/-- All items that stand under a key. -/
def itemsAt (key : String) (entries : List (String × Tree)) : List Tree :=
  (entries.filter fun e => e.1 == key).map Prod.snd

/-- The item under a key that occurs at most once. -/
def itemAt? (key : String) (entries : List (String × Tree)) : Option (Option Tree) :=
  match itemsAt key entries with
  | [] => some none
  | [t] => some (some t)
  | _ => none

/-- The fields of a record, in declared order, `none` for those that are missing.
A list may leave out trailing fields only if `shorter` allows it. -/
def fields? (fmt : Format) (shorter : Bool) (names : List String) :
    Tree → Option (List (Option Tree))
  | .record entries => names.mapM fun name => itemAt? name entries
  | .list items =>
    if items.length < names.length ∧ shorter = false then none
    else if names.length < items.length ∧ fmt.extraItems = false then none
    else some ((List.range names.length).map fun i => items[i]?)
  | _ => none

/-- The name of a variant and what is written under it. -/
def variant? : Tree → Option (String × Tree)
  | .record [(name, payload)] => some (name, payload)
  | _ => none

/-- The name of a variant without fields; an object needs one level of nesting. -/
def bare? (fmt : Format) (depth : Nat) : Tree → Option String
  | .text name => some name
  | .record [(name, payload)] =>
    if fmt.emptyPayload payload && decide (0 < depth) then some name else none
  | _ => none

/-- An optional text: missing, null or a text. -/
def textOrNull? : Option Tree → Option (Option String)
  | none => some none
  | some .null => some none
  | some (.text s) => some (some s)
  | some _ => none

end Tree

end SelectSql
