import SelectSql.Proofs.Pieces
import SelectSql.Proofs.Tables
import Mathlib.Algebra.GroupWithZero.Nat
import Mathlib.Algebra.Order.BigOperators.Group.List
import Mathlib.Algebra.Order.Group.Nat

/-!
# SelectSql.Proofs.Placeholders

Which tables of a statement are expanded. A table is written in braces whatever its name is,
but the scanner reads what stands in braces as a name only if it consists of the characters of
names. A name that does not is left in its braces.

Design points:

* **The names of tables may be any texts without quotes and braces** (`Leaf.Orderly`), with
  dots, dashes and blanks. The other texts of the caller may hold literals, and placeholders of
  their own (`Text.Orderly`); values may hold anything.
* **A join collapses the names of its tables too**, so a name may be written with its runs of
  blanks collapsed (`Written`).

Main statement: `Query.exists_placeholders`.
-/

namespace SelectSql

/-! ## What is asked of the caller -/

/-- The quotes of a text are balanced, and outside its literals braces stand around names
only. -/
def Text.Orderly (cs : List Char) : Prop :=
  Text.Balanced cs ∧ ∀ s ∈ Fragment.scan cs, s ≠ .char '\x7b' ∧ s ≠ .char '\x7d'

instance (cs : List Char) : Decidable (Text.Orderly cs) :=
  inferInstanceAs (Decidable (_ ∧ _))

/-- The texts of a leaf are orderly, the name of a table has neither quotes nor braces, and no
escape character is a quote. -/
def Leaf.Orderly : Leaf → Prop
  | .text s => Text.Orderly s.toList
  | .table name => ∀ c ∈ name.toList, Text.IsOrdinary c
  | .fragment sql _ => Text.Orderly sql.toList
  | .value _ => True
  | .escape c => c ≠ '\''

instance : DecidablePred Leaf.Orderly
  | .text s => inferInstanceAs (Decidable (Text.Orderly s.toList))
  | .table name => inferInstanceAs (Decidable (∀ c ∈ name.toList, Text.IsOrdinary c))
  | .fragment sql _ => inferInstanceAs (Decidable (Text.Orderly sql.toList))
  | .value _ => inferInstanceAs (Decidable True)
  | .escape c => inferInstanceAs (Decidable (c ≠ '\''))

theorem Leaf.Orderly.balanced {l : Leaf} (h : l.Orderly) : l.Balanced := by
  cases l with
  | text s | fragment sql params => exact h.1
  | table name => exact Text.balanced_of_isOrdinary h
  | value v => trivial
  | escape c => exact h

/-- The names that a leaf has in braces: that of a table, and those in the texts of the
caller. -/
def Leaf.placeholders : Leaf → List (List Char)
  | .text s => Fragment.tables (Fragment.scan s.toList)
  | .table name => [name.toList]
  | .fragment sql _ => Fragment.tables (Fragment.scan sql.toList)
  | _ => []

/-- The names that a query has in braces, in the order of the text. -/
def Query.placeholders (q : Query) : List (List Char) :=
  q.leaves.flatMap Leaf.placeholders

namespace Fragment

/-- The scanner reads names only. -/
theorem isName_of_first {c : Char} {cs name : List Char} (h : (first c cs).1 = .table name) :
    Text.IsName name := by
  unfold first at h
  split at h
  · split at h <;> exact nomatch h
  · split at h
    · split at h
      · next hread =>
        obtain rfl := Segment.table.inj h
        exact isName_of_tableName? hread
      · exact nomatch h
    · split at h <;> exact nomatch h

theorem isName_of_mem_tables {cs name : List Char} (h : name ∈ tables (scan cs)) :
    Text.IsName name := by
  fun_induction scan cs with
  | case1 => simp [tables] at h
  | case2 c cs ih =>
      cases hfirst : (first c cs).1 with
      | table name' =>
          rw [hfirst] at h
          rcases List.mem_cons.1 h with rfl | h
          · exact isName_of_first hfirst
          · exact ih h
      | _ =>
          rw [hfirst] at h
          exact ih h

end Fragment

/-- All names in braces are names for the scanner if those of the tables are. -/
theorem Query.forall_placeholders_iff (q : Query) :
    (∀ name ∈ q.placeholders, Text.IsName name) ↔ ∀ name ∈ q.tables, Text.IsName name.toList := by
  constructor
  · intro h name hname
    obtain ⟨l, hl, htable⟩ := List.mem_filterMap.1 hname
    refine h _ (List.mem_flatMap.2 ⟨l, hl, ?_⟩)
    cases l with
    | table name' =>
        obtain rfl : name' = name := by simpa [Leaf.table?] using htable
        exact List.mem_singleton_self _
    | _ => simp [Leaf.table?] at htable
  · intro h name hname
    obtain ⟨l, hl, hmem⟩ := List.mem_flatMap.1 hname
    cases l with
    | table name' =>
        obtain rfl := List.mem_singleton.1 hmem
        exact h name' (List.mem_filterMap.2 ⟨_, hl, rfl⟩)
    | text s | fragment sql params => exact Fragment.isName_of_mem_tables hmem
    | _ => simp [Leaf.placeholders] at hmem

/-! ## The names of a statement -/

namespace Template.HasNames

/-- A segment that is no stray brace. -/
theorem segment {s : Segment} (hs : s.Sound) (hbrace : s ≠ .char '\x7b' ∧ s ≠ .char '\x7d') :
    HasNames (ofChars s.chars) (Fragment.tables [s]) := by
  cases s with
  | literal content => exact literal content
  | marker => exact plain (show ∀ c ∈ ['?'], Text.IsOrdinary c by decide)
  | table name =>
      have hordinary : ∀ c ∈ name, Text.IsOrdinary c := by
        intro c hc
        refine ⟨(Fragment.ne_of_isNameChar (hs c hc)).1, ?_, ?_⟩
        all_goals
          rintro rfl
          exact absurd (hs _ hc) (by decide)
      exact table hordinary
  | char c =>
      refine plain fun d hd => ?_
      obtain rfl := List.mem_singleton.1 hd
      exact ⟨hs.1, fun hopen => hbrace.1 (congrArg _ hopen),
        fun hclose => hbrace.2 (congrArg _ hclose)⟩

/-- The names of a filled text are those that the scanner finds in it. -/
theorem ofSegments {ss : List Segment} (hsound : ∀ s ∈ ss, s.Sound)
    (hbrace : ∀ s ∈ ss, s ≠ .char '\x7b' ∧ s ≠ .char '\x7d') (vs : List Value) :
    HasNames (Template.ofSegments ss vs) (Fragment.tables ss) := by
  fun_induction Template.ofSegments ss vs with
  | case1 vs => exact nil
  | case2 ss v vs ih =>
      exact (value v).append (ih (fun s hs => hsound s (List.mem_cons_of_mem _ hs))
        fun s hs => hbrace s (List.mem_cons_of_mem _ hs))
  | case3 s ss vs hplain ih =>
      have hsplit : Fragment.tables (s :: ss) = Fragment.tables [s] ++ Fragment.tables ss :=
        List.filterMap_append (l := [s])
      rw [hsplit]
      exact (segment (hsound s List.mem_cons_self) (hbrace s List.mem_cons_self)).append
        (ih (fun s hs => hsound s (List.mem_cons_of_mem _ hs))
          fun s hs => hbrace s (List.mem_cons_of_mem _ hs))

end Template.HasNames

/-- Without values a text is left as it is. -/
theorem Template.ofSegments_nil (ss : List Segment) :
    Template.ofSegments ss [] = Template.ofChars (ss.flatMap Segment.chars) := by
  induction ss with
  | nil => rfl
  | cons s ss ih =>
      rw [Template.ofSegments, ih, List.flatMap_cons, ofChars, ofChars, ofChars, List.map_append]
      simp

theorem Leaf.hasNames_template (d : Dialect) {l : Leaf} (h : l.Orderly) :
    Template.HasNames (l.template d) l.placeholders := by
  cases l with
  | text s =>
      have hsound := Fragment.sound_scan (Text.balanced_iff.1 h.1)
      have hnames := Template.HasNames.ofSegments hsound h.2 []
      rwa [Template.ofSegments_nil, Fragment.flatMap_chars_scan] at hnames
  | table name => exact .table h
  | fragment sql params =>
      exact .ofSegments (Fragment.sound_scan (Text.balanced_iff.1 h.1)) h.2 params
  | value v => exact .value v
  | escape c =>
      obtain ⟨s, hs⟩ := exists_escapeLiteral d h
      rw [Leaf.template, hs]
      exact .literal s

/-- What is found in templates are their names. -/
theorem Template.collects_hasNames : Collects HasNames where
  eq_nil := HasNames.eq_nil
  plain hquote hopen hclose := .plain (Text.isOrdinary_of_not_mem hquote hopen hclose)
  append := HasNames.append
  trim := HasNames.trim
  collapse := HasNames.collapse

/-- **The names of a statement are those of its leaves**, in their order. -/
theorem Doc.hasNames_template (d : Dialect) {a : Doc} (h : ∀ l ∈ a.leaves, l.Orderly) :
    Template.HasNames (a.template d) (a.leaves.flatMap Leaf.placeholders) :=
  Template.collects_hasNames.doc_template d fun l hl => Leaf.hasNames_template d (h l hl)

/-! ## Statements -/

namespace Item

variable {f g : List Char → List Char} (r : Rendering) (k : Nat) (is : List Item)

theorem write_congr (h : ∀ name ∈ is.filterMap table?, f name = g name) :
    write r f k is = write r g k is := by
  induction is generalizing k with
  | nil => rfl
  | cons i is ih =>
      cases i with
      | char c => exact congrArg (c :: ·) (ih k h)
      | value v => exact congrArg (r.slot k v ++ ·) (ih (k + 1) h)
      | table name =>
          obtain ⟨hname, hrest⟩ := List.forall_mem_cons.1 h
          rw [write, write, hname, ih k hrest]

/-- How long a text is: its characters and slots, and what is written for its tables. -/
theorem length_write (f : List Char → List Char) :
    (write r f k is).length = (write r (fun _ => []) k is).length +
      ((is.filterMap table?).map fun name => (f name).length).sum := by
  induction is generalizing k with
  | nil => rfl
  | cons i is ih =>
      cases i with
      | char c =>
          have hrest := ih k
          simp only [write, List.length_cons, List.filterMap_cons, table?] at hrest ⊢
          omega
      | value v =>
          have hrest := ih (k + 1)
          simp only [write, List.length_append, List.filterMap_cons, table?] at hrest ⊢
          omega
      | table name =>
          have hrest := ih k
          simp only [write, List.length_append, List.length_nil, List.filterMap_cons, table?,
            List.map_cons, List.sum_cons] at hrest ⊢
          omega

end Item

/-- Names are expanded in all their places exactly if all of them are names for the scanner:
braces that stay make the text longer. -/
theorem Piece.write_expanded_iff (r : Rendering) (k : Nat) (is : List Item) :
    (∀ beginning : String, Item.write r (expanded (beginning.toList ++ ·)) k is =
        Item.write r (beginning.toList ++ ·) k is) ↔
      ∀ name ∈ is.filterMap Item.table?, Text.IsName name := by
  constructor
  · intro h name hname
    by_contra hstray
    have hbraced (name : List Char) : (Item.braced name).length = name.length + 2 := by
      rw [Item.braced, List.length_cons, List.length_append, List.length_singleton]
    have hle : ∀ name ∈ is.filterMap Item.table?,
        name.length ≤ (expanded ("".toList ++ ·) name).length := by
      intro name _
      rw [expanded]
      split
      · exact Nat.le_refl _
      · rw [hbraced]
        omega
    have hlt : name.length < (expanded ("".toList ++ ·) name).length := by
      rw [expanded, if_neg hstray, hbraced]
      omega
    have hsum := List.sum_lt_sum _ _ hle ⟨name, hname, hlt⟩
    have hlength := congrArg List.length (h "")
    rw [Item.length_write, Item.length_write r k is ("".toList ++ ·)] at hlength
    have hequal := Nat.add_left_cancel hlength
    exact absurd hequal (Nat.ne_of_gt hsum)
  · intro h beginning
    refine Item.write_congr r k is fun name hname => ?_
    rw [expanded, if_pos (h name hname)]

namespace Query

/-- **Which placeholders are expanded.** A statement is a row of characters, values and names
in braces, the same in both modes; the names are those of the tables of the query and those in
the texts of the caller, in their order. To expand tables puts a beginning in front of the names
that consist of the characters of names, and leaves all others in their braces. So all names
are expanded exactly if the names of all tables are made of these characters. -/
theorem exists_placeholders (q : Query) (d : Dialect) (h : ∀ l ∈ q.leaves, l.Orderly) :
    ∃ items : List Item,
      List.Forall₂ Written q.placeholders (items.filterMap Item.table?) ∧
      ∀ mode,
        q.sql d mode = String.ofList (Item.write ⟨d, mode⟩ Item.braced 0 items) ∧
        (∀ beginning : String, Fragment.expandTables beginning (q.sql d mode) =
          String.ofList
            (Item.write ⟨d, mode⟩ (Piece.expanded (beginning.toList ++ ·)) 0 items)) ∧
        ((∀ beginning : String, Fragment.expandTables beginning (q.sql d mode) =
            String.ofList (Item.write ⟨d, mode⟩ (beginning.toList ++ ·) 0 items)) ↔
          ∀ name ∈ q.tables, Text.IsName name.toList) := by
  have horderly : ∀ l ∈ (q.doc d).leaves, l.Orderly := by rwa [Query.leaves_doc]
  obtain ⟨hordinary, ps, hsound, htemplate, hwritten⟩ := Doc.hasNames_template d horderly
  rw [Query.leaves_doc] at hordinary hwritten
  rw [← Piece.filterMap_table?_items] at hwritten
  have htext (mode : Mode) : q.sql d mode =
      String.ofList (Item.write ⟨d, mode⟩ Item.braced 0 (ps.flatMap Piece.items)) := by
    rw [sql_eq, Doc.text_eq_render (fun l hl => (horderly l hl).balanced), ← htemplate,
      Piece.render_flatMap_template]
  have hexpand (mode : Mode) (beginning : String) :
      Fragment.expandTables beginning (q.sql d mode) = String.ofList
        (Item.write ⟨d, mode⟩ (Piece.expanded (beginning.toList ++ ·)) 0
          (ps.flatMap Piece.items)) := by
    rw [Fragment.expandTables, htext, String.toList_ofList,
      (Piece.replaceTables_scan_write _ hsound ⟨d, mode⟩ 0).alone]
  have hnames : (∀ name ∈ (ps.flatMap Piece.items).filterMap Item.table?, Text.IsName name) ↔
      ∀ name ∈ q.tables, Text.IsName name.toList := by
    rw [← forall_placeholders_iff]
    exact Written.forall_isName_iff hwritten fun name hname c hc => (hordinary name hname c hc).1
  refine ⟨ps.flatMap Piece.items, hwritten, fun mode => ⟨htext mode, hexpand mode, ?_⟩⟩
  rw [← hnames, ← Piece.write_expanded_iff ⟨d, mode⟩ 0]
  simp only [hexpand, String.ofList_inj]

/-- A query over tables with a dot, with blanks and with a name for the scanner, and with a
name in braces of the caller. -/
def dottedSample : Query :=
  ⟨.table "public.user" (some "u"),
    { columns := [.raw "\x7btags\x7d.id + ?" [.text "\x7busers\x7d"] false] },
    [⟨.table "order  items", .left, [⟨⟨"u.id", .eq, "'\x7b'"⟩, none⟩], "i"⟩,
      ⟨.query ⟨.table "log_1" none, {}, [], [], ⟨[], []⟩, []⟩, .inner,
        [⟨⟨"u.id", .eq, "l.id"⟩, none⟩], "l"⟩],
    [.pattern "u.name" "it's \x7b" false { escape := '\x7b' }], ⟨[], []⟩, []⟩

theorem exists_placeholders_dottedSample :
    (∀ l ∈ dottedSample.leaves, l.Orderly) ∧
    dottedSample.tables = ["public.user", "order  items", "log_1"] ∧
    ∃ items : List Item,
      List.Forall₂ Written dottedSample.placeholders (items.filterMap Item.table?) ∧
      ∀ mode,
        dottedSample.sql .sqlServer mode =
          String.ofList (Item.write ⟨.sqlServer, mode⟩ Item.braced 0 items) ∧
        (∀ beginning : String,
          Fragment.expandTables beginning (dottedSample.sql .sqlServer mode) = String.ofList
            (Item.write ⟨.sqlServer, mode⟩ (Piece.expanded (beginning.toList ++ ·)) 0 items)) ∧
        ((∀ beginning : String,
            Fragment.expandTables beginning (dottedSample.sql .sqlServer mode) = String.ofList
              (Item.write ⟨.sqlServer, mode⟩ (beginning.toList ++ ·) 0 items)) ↔
          ∀ name ∈ dottedSample.tables, Text.IsName name.toList) := by
  have h : ∀ l ∈ dottedSample.leaves, l.Orderly := by decide +kernel
  exact ⟨h, rfl, exists_placeholders dottedSample .sqlServer h⟩

/-- A name with a dot is left in its braces. -/
theorem expandTables_dottedName :
    ¬ ∀ (q : Query) (d : Dialect) (mode : Mode) (beginning : String),
      (∀ l ∈ q.leaves, l.Orderly) → (∀ name ∈ q.tables, name ≠ "") →
      ∃ items : List Item, items.filterMap Item.table? = q.tables.map String.toList ∧
        q.sql d mode = String.ofList (Item.write ⟨d, mode⟩ Item.braced 0 items) ∧
        Fragment.expandTables beginning (q.sql d mode) =
          String.ofList (Item.write ⟨d, mode⟩ (beginning.toList ++ ·) 0 items) := by
  intro h
  obtain ⟨items, htables, hsql, hexpand⟩ := h (table "public.user" none) .generic .bound "mdl_"
    (by decide) (by decide)
  have hstays : Fragment.expandTables "mdl_" ((table "public.user" none).sql .generic .bound) =
      (table "public.user" none).sql .generic .bound := by
    decide +kernel
  -- the braces are two characters, the beginning would be four
  have hlength := congrArg List.length
    (String.ofList_inj.1 (hexpand.symm.trans (hstays.trans hsql)))
  rw [Item.length_write, Item.length_write _ _ _ Item.braced, htables] at hlength
  exact absurd (Nat.add_left_cancel hlength) (by decide)

end Query

end SelectSql
