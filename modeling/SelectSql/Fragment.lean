import SelectSql.Text.Alphanumeric
import SelectSql.Text.Blank
import SelectSql.Text.Quoted

/-!
# SelectSql.Fragment

SQL text as a sequence of segments: quoted literals, `?` markers, `{name}` table
placeholders and other characters. Everything that rewrites SQL text works on its
segments, so nothing is ever found inside a literal.

Design points:

* **Scanning never fails and loses nothing** (`flatMap_chars_scan`). A quote that is
  never closed and a brace that opens no placeholder are characters like others.
* **A literal keeps its content**, a placeholder its name; `Segment.chars` gives the
  spelling back.
-/

namespace SelectSql

/-- A piece of SQL text. -/
inductive Segment
  /-- A quoted literal, by its content. -/
  | literal (content : List Char)
  /-- The `?` of a parameter. -/
  | marker
  /-- A table in braces, by its name. -/
  | table (name : List Char)
  /-- Any other character. -/
  | char (c : Char)
deriving DecidableEq

/-- The spelling of a segment. -/
def Segment.chars : Segment → List Char
  | .literal content => Text.Quoted.encode content
  | .marker => ['?']
  | .table name => '\x7b' :: (name ++ ['\x7d'])
  | .char c => [c]

namespace Fragment

/-! ## Scanning -/

/-- The name of a table placeholder whose opening brace has been read, and the text
behind its closing brace. -/
def tableName? (cs : List Char) : Option (List Char × List Char) :=
  match cs.takeWhile Text.isNameChar, cs.dropWhile Text.isNameChar with
  | c :: name, '\x7d' :: rest => some (c :: name, rest)
  | _, _ => none

/-- What was read is the name, a closing brace and the rest. -/
theorem eq_of_tableName? {cs name rest : List Char} (h : tableName? cs = some (name, rest)) :
    cs = name ++ '\x7d' :: rest := by
  unfold tableName? at h
  split at h
  · next c n r hn hr =>
    obtain ⟨rfl, rfl⟩ := Prod.mk.inj (Option.some.inj h)
    rw [← hn, ← hr, List.takeWhile_append_dropWhile]
  · simp at h

/-- The first segment of a text, and the text behind it. -/
def first (c : Char) (cs : List Char) : Segment × List Char :=
  if c = '\'' then
    match Text.Quoted.body? cs with
    | some (content, rest) => (.literal content, rest)
    | none => (.char c, cs)
  else if c = '\x7b' then
    match tableName? cs with
    | some (name, rest) => (.table name, rest)
    | none => (.char c, cs)
  else if c = '?' then (.marker, cs)
  else (.char c, cs)

/-- The first segment and the text behind it make up the text. -/
theorem chars_first (c : Char) (cs : List Char) :
    (first c cs).1.chars ++ (first c cs).2 = c :: cs := by
  unfold first
  split
  · next h =>
    subst h
    split
    · next content rest hb =>
      simp [Segment.chars, Text.Quoted.encode, Text.Quoted.eq_of_body? hb]
    · simp [Segment.chars]
  · split
    · next h =>
      subst h
      split
      · next name rest hb => simp [Segment.chars, eq_of_tableName? hb]
      · simp [Segment.chars]
    · split
      · next h => simp [Segment.chars, h]
      · simp [Segment.chars]

/-- A segment has a character at least, so the text behind the first one is shorter. -/
theorem length_first_le (c : Char) (cs : List Char) : (first c cs).2.length ≤ cs.length := by
  have h := congrArg List.length (chars_first c cs)
  have hpos : 1 ≤ (first c cs).1.chars.length := by
    cases (first c cs).1 <;> simp [Segment.chars, Text.Quoted.encode]
  simp only [List.length_append, List.length_cons] at h
  omega

/-- The segments of a text. -/
def scan : List Char → List Segment
  | [] => []
  | c :: cs => (first c cs).1 :: scan (first c cs).2
termination_by cs => cs.length
decreasing_by exact Nat.lt_succ_of_le (length_first_le c cs)

@[simp] theorem scan_nil : scan [] = [] := by
  rw [scan]

theorem scan_cons (c : Char) (cs : List Char) :
    scan (c :: cs) = (first c cs).1 :: scan (first c cs).2 := by
  rw [scan]

/-- Scanning loses nothing. -/
theorem flatMap_chars_scan (cs : List Char) : (scan cs).flatMap Segment.chars = cs := by
  fun_induction scan cs with
  | case1 => rfl
  | case2 c cs ih => rw [List.flatMap_cons, ih, chars_first]

/-! ## Markers and tables -/

/-- How many markers stand among segments. -/
def markers (ss : List Segment) : Nat :=
  ss.count .marker

/-- The names of the table placeholders among segments. -/
def tables (ss : List Segment) : List (List Char) :=
  ss.filterMap fun
    | .table name => some name
    | _ => none

/-- The contents of the literals among segments. -/
def literals (ss : List Segment) : List (List Char) :=
  ss.filterMap fun
    | .literal content => some content
    | _ => none

/-- Writes `f i` for the marker with `i` markers before it, counted from `i₀`. -/
def replaceMarkers (f : Nat → List Char) : Nat → List Segment → List Char
  | _, [] => []
  | i, .marker :: ss => f i ++ replaceMarkers f (i + 1) ss
  | i, s :: ss => s.chars ++ replaceMarkers f i ss

/-- Writes `f name` for every table placeholder. -/
def replaceTables (f : List Char → List Char) : List Segment → List Char
  | [] => []
  | .table name :: ss => f name ++ replaceTables f ss
  | s :: ss => s.chars ++ replaceTables f ss

/-- How many markers a text has outside its literals. -/
def countMarkers (sql : String) : Nat :=
  markers (scan sql.toList)

/-- A text with `f i` in the place of its marker number `i`, counted from zero. -/
def rewriteMarkers (f : Nat → String) (sql : String) : String :=
  String.ofList (replaceMarkers (fun i => (f i).toList) 0 (scan sql.toList))

/-- A text with its table placeholders replaced by their names, each behind the same
beginning. -/
def expandTables (beginning sql : String) : String :=
  String.ofList (replaceTables (beginning.toList ++ ·) (scan sql.toList))

/-! ## Blank space -/

/-- Writes one space for every run of blanks outside literals. `afterSpace` tells
whether the text so far ends with a space. -/
def squeeze : Bool → List Segment → List Char
  | _, [] => []
  | afterSpace, .char c :: ss =>
    if Text.isBlank c then
      if afterSpace then squeeze true ss else ' ' :: squeeze true ss
    else c :: squeeze false ss
  | _, s :: ss => s.chars ++ squeeze false ss

/-- Collapses the runs of blanks outside literals and trims both ends. -/
def collapseChars (cs : List Char) : List Char :=
  Text.trimChars (squeeze false (scan cs))

/-- Collapses the runs of blanks of a text outside its literals and trims both ends. -/
def collapse (sql : String) : String :=
  String.ofList (collapseChars sql.toList)

@[simp] theorem toList_collapse (sql : String) :
    (collapse sql).toList = collapseChars sql.toList := by
  simp [collapse]

end Fragment

end SelectSql
