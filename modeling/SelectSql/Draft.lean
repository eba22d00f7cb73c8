import SelectSql.Fragment
import SelectSql.Notice

/-!
# SelectSql.Draft

A statement while it is written: the values that are bound so far, and what there is
to report. Text is written in the order in which it will be read, so the values line
up with their placeholders.

Design points:

* **Two modes.** Bound values leave a placeholder in the text and are collected;
  inline values are written as literals and nothing is collected.
* **A raw fragment brings values for its markers**, which are bound one by one from the
  left. Markers without a value stay as they are, values without a marker are dropped,
  and either is reported.
-/

namespace SelectSql

/-- How values reach the text. -/
inductive Mode
  | bound | inline
deriving DecidableEq

/-- The engine and the mode that a statement is written for. -/
structure Rendering where
  dialect : Dialect
  mode : Mode
deriving DecidableEq

/-- The values bound so far, and the notices. -/
structure Draft where
  bound : List Value := []
  notices : List Notice := []

/-- Writing something into a draft. -/
abbrev Writing := StateM Draft

namespace Draft

/-- The draft with one more bound value. -/
def push (d : Draft) (v : Value) : Draft :=
  { d with bound := d.bound ++ [v] }

/-- The draft with one more notice. -/
def note (d : Draft) (n : Notice) : Draft :=
  { d with notices := d.notices ++ [n] }

end Draft

namespace Rendering

/-- The text of a value: a placeholder for it, or its literal. -/
def bind (r : Rendering) (v : Value) : Writing String := do
  match r.mode with
  | .bound =>
    let d ← get
    set (d.push v)
    return r.dialect.placeholder (d.bound.length + 1)
  | .inline => return r.dialect.literal v

/-- The texts of a list of values. -/
def bindAll (r : Rendering) : List Value → Writing (List String)
  | [] => return []
  | v :: vs => do
    let text ← r.bind v
    return text :: (← bindAll r vs)

/-- The text of segments with the values of their markers in order. -/
def fill (r : Rendering) : List Segment → List Value → Writing (List Char)
  | [], _ => return []
  | .marker :: ss, v :: vs => do
    let text ← r.bind v
    return text.toList ++ (← fill r ss vs)
  | s :: ss, vs => do
    return s.chars ++ (← fill r ss vs)

/-- The text of a raw fragment with the values of its markers. -/
def splice (r : Rendering) (sql : String) (params : List Value) : Writing String := do
  let segments := Fragment.scan sql.toList
  let markers := Fragment.markers segments
  if markers ≠ params.length then
    modify (·.note (.markerMismatch sql markers params.length))
  return String.ofList (← r.fill segments params)

end Rendering

end SelectSql
