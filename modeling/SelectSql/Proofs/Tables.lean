import SelectSql.Proofs.Braces
import SelectSql.Proofs.Doc.Statement
import SelectSql.Query.Fetch

/-!
# SelectSql.Proofs.Tables

The tables of a statement. What the scanner finds in braces are the names of the tables of
the query, and whoever puts names of its own for them touches nothing else: not the texts of
values, not the literals of escape characters, not what is nested or collapsed.

Design points:

* **The caller keeps quotes and braces out of its texts**, and names its tables with the
  characters of names (`Leaf.Clean`). Values may hold anything.
* **The items of a statement** are its characters, its values and its tables in a row. They
  are the same for both modes, bound and inline.

Main statement: `Query.exists_items`.
-/

namespace SelectSql

/-! ## What is asked of the caller -/

/-- The texts of a leaf have neither quotes nor braces, the name of a table has a character
and only those of names, and no escape character is a quote. -/
def Leaf.Clean : Leaf → Prop
  | .text s => ∀ c ∈ s.toList, Text.IsOrdinary c
  | .table name => name.toList ≠ [] ∧ ∀ c ∈ name.toList, Text.isNameChar c = true
  | .fragment sql _ => ∀ c ∈ sql.toList, Text.IsOrdinary c
  | .value _ => True
  | .escape c => c ≠ '\''

instance : DecidablePred Leaf.Clean
  | .text s => inferInstanceAs (Decidable (∀ c ∈ s.toList, Text.IsOrdinary c))
  | .table name => inferInstanceAs (Decidable (name.toList ≠ [] ∧ ∀ c ∈ name.toList, _))
  | .fragment sql _ => inferInstanceAs (Decidable (∀ c ∈ sql.toList, Text.IsOrdinary c))
  | .value _ => inferInstanceAs (Decidable True)
  | .escape c => inferInstanceAs (Decidable (c ≠ '\''))

theorem Text.balanced_of_isOrdinary {cs : List Char} (h : ∀ c ∈ cs, Text.IsOrdinary c) :
    Text.Balanced cs :=
  Text.balanced_of_not_mem fun hq => (h '\'' hq).1 rfl

theorem Text.isOrdinary_of_not_mem {cs : List Char} (hquote : '\'' ∉ cs) (hopen : '\x7b' ∉ cs)
    (hclose : '\x7d' ∉ cs) : ∀ c ∈ cs, Text.IsOrdinary c :=
  fun _ hc => ⟨ne_of_mem_of_not_mem hc hquote, ne_of_mem_of_not_mem hc hopen,
    ne_of_mem_of_not_mem hc hclose⟩

theorem Leaf.Clean.balanced {l : Leaf} (h : l.Clean) : l.Balanced := by
  cases l with
  | text s => exact Text.balanced_of_isOrdinary h
  | table name =>
      exact Text.balanced_of_not_mem fun hq => (Fragment.ne_of_isNameChar (h.2 '\'' hq)).1 rfl
  | fragment sql params => exact Text.balanced_of_isOrdinary h
  | value v => trivial
  | escape c => exact h

/-- The tables and the written values of a leaf. -/
def Leaf.holes : Leaf → List Item
  | .table name => [.table name.toList]
  | l => l.written.map .value

/-- The name of a table that is a leaf. -/
def Leaf.table? : Leaf → Option String
  | .table name => some name
  | _ => none

/-- The names of the tables of a query, in the order of the text: of its source, of what it
joins, and of the queries nested in it. -/
def Query.tables (q : Query) : List String :=
  q.leaves.filterMap Leaf.table?

/-! ## The holes of a statement -/

theorem Leaf.filterMap_table?_holes (l : Leaf) :
    l.holes.filterMap Item.table? = l.table?.toList.map String.toList := by
  cases l with
  | table name => rfl
  | _ => exact List.filterMap_map.trans (List.filterMap_eq_nil_iff.2 fun _ _ => rfl)

theorem Leaf.filterMap_value?_holes (l : Leaf) : l.holes.filterMap Item.value? = l.written := by
  cases l with
  | table name => rfl
  | _ => exact List.filterMap_map.trans List.filterMap_some

theorem filterMap_table?_holes (ls : List Leaf) :
    (ls.flatMap Leaf.holes).filterMap Item.table? =
      (ls.filterMap Leaf.table?).map String.toList := by
  simp only [List.filterMap_flatMap, Leaf.filterMap_table?_holes,
    List.filterMap_eq_flatMap_toList Leaf.table?, List.map_flatMap]

theorem filterMap_value?_holes (ls : List Leaf) :
    (ls.flatMap Leaf.holes).filterMap Item.value? = ls.flatMap Leaf.written := by
  simp only [List.filterMap_flatMap, Leaf.filterMap_value?_holes]

/-- The holes of a filled fragment are its values. -/
theorem hasHoles_ofSegments {ss : List Segment}
    (h : ∀ s ∈ ss, ∀ c ∈ s.chars, Text.IsOrdinary c) (vs : List Value) :
    Template.HasHoles (Template.ofSegments ss vs) ((vs.take (Fragment.markers ss)).map .value) := by
  rw [← values_ofSegments]
  fun_induction Template.ofSegments ss vs with
  | case1 vs => exact .nil
  | case2 ss v vs ih => exact (Template.HasHoles.value v).append (ih fun t ht => h t (by simp [ht]))
  | case3 s ss vs hplain ih =>
      have hs := Template.HasHoles.plain (h s (by simp))
      have hrest := hs.append (ih fun t ht => h t (by simp [ht]))
      rwa [Template.values_append, Template.values_ofChars, List.nil_append]

theorem Leaf.hasHoles_template (d : Dialect) {l : Leaf} (h : l.Clean) :
    Template.HasHoles (l.template d) l.holes := by
  cases l with
  | text s => exact .plain h
  | table name => exact .table h.1 h.2
  | fragment sql params =>
      refine hasHoles_ofSegments (fun s hs c hc => h c ?_) params
      rw [← Fragment.flatMap_chars_scan sql.toList]
      exact List.mem_flatMap.2 ⟨s, hs, hc⟩
  | value v => exact .value v
  | escape c =>
      obtain ⟨s, hs⟩ := exists_escapeLiteral d h
      rw [Leaf.template, hs]
      exact .literal s

/-- What is found in templates are their holes. -/
theorem Template.collects_hasHoles : Collects HasHoles where
  eq_nil := HasHoles.eq_nil
  plain hquote hopen hclose := .plain (Text.isOrdinary_of_not_mem hquote hopen hclose)
  append := HasHoles.append
  trim := HasHoles.trim
  collapse := HasHoles.collapse

/-- **The holes of a statement are those of its leaves**, in their order. -/
theorem Doc.hasHoles_template (d : Dialect) {a : Doc} (h : ∀ l ∈ a.leaves, l.Clean) :
    Template.HasHoles (a.template d) (a.leaves.flatMap Leaf.holes) :=
  Template.collects_hasHoles.doc_template d fun l hl => Leaf.hasHoles_template d (h l hl)

/-! ## Statements -/

namespace Query

/-- The text of a query in a mode. -/
def sql (q : Query) (d : Dialect) : Mode → String
  | .bound => (q.compile d).sql
  | .inline => q.inline d

theorem sql_eq (q : Query) (d : Dialect) (mode : Mode) :
    q.sql d mode = String.ofList ((q.doc d).text ⟨d, mode⟩ 0) := by
  cases mode with
  | bound => rw [sql, compile_eq]
  | inline => exact inline_eq q d

/-- **Expanding tables touches the tables of a query and nothing else.** A statement is a row
of characters, values and tables, the same in both modes. Its values are the bound ones, and
its tables are those of the query. The scanner finds these tables, and to put a beginning in
front of their names changes them alone: the slots of the values stay as they are, whatever
is in them. -/
theorem exists_items (q : Query) (d : Dialect) (h : ∀ l ∈ q.leaves, l.Clean) :
    ∃ items : List Item,
      items.filterMap Item.table? = q.tables.map String.toList ∧
      items.filterMap Item.value? = (q.compile d).params ∧
      ∀ mode,
        Fragment.tables (Fragment.scan (q.sql d mode).toList) = q.tables.map String.toList ∧
        q.sql d mode = String.ofList (Item.write ⟨d, mode⟩ Item.braced 0 items) ∧
        ∀ beginning : String, Fragment.expandTables beginning (q.sql d mode) =
          String.ofList (Item.write ⟨d, mode⟩ (beginning.toList ++ ·) 0 items) := by
  rw [← Query.leaves_doc d] at h
  obtain ⟨items, hwalk, hholes⟩ := Doc.hasHoles_template d h
  have htables : items.filterMap Item.table? = q.tables.map String.toList := by
    rw [← Item.filterMap_holes (fun _ => rfl), hholes, filterMap_table?_holes, Query.leaves_doc]
    rfl
  have hvalues : items.filterMap Item.value? = (q.compile d).params := by
    rw [← Item.filterMap_holes (fun _ => rfl), hholes, filterMap_value?_holes, compile_eq]
    rfl
  have htext (mode : Mode) :
      (q.sql d mode).toList = Template.render ⟨d, mode⟩ 0 ((q.doc d).template d) := by
    rw [sql_eq, String.toList_ofList]
    exact Doc.text_eq_render (fun l hl => (h l hl).balanced) ⟨d, mode⟩ 0
  refine ⟨items, htables, hvalues, fun mode => ⟨?_, ?_, fun beginning => ?_⟩⟩
  · rw [htext, hwalk.tables_scan_render, htables]
  · rw [← hwalk.render_eq_write, ← htext, String.ofList_toList]
  · rw [Fragment.expandTables, htext, hwalk.replaceTables_scan_render]

/-- A query whose tables stand in every place, and whose values spell tables out. -/
def bracedSample : Query :=
  ⟨.query ⟨.table "users" (some "u"),
      { columns := [.raw "u.id + ?" [.text "\x7buser\x7d"] false] }, [], [], ⟨[], []⟩, []⟩ (some "s"),
    {},
    [⟨.table "posts_1", .left, [⟨⟨"s.id", .eq, "p.id"⟩, none⟩], "p"⟩,
      ⟨.query ⟨.table "tags" none, {}, [],
          [.pattern "t" "\x7busers\x7d  '" false { escape := '\x7b' }], ⟨[], []⟩, []⟩,
        .inner, [⟨⟨"s.id", .eq, "t.id"⟩, none⟩], "t"⟩],
    [.inSet "b" (.query ⟨.table "users" none, {}, [], [], ⟨[], []⟩, []⟩) false,
      .comparison "c" .eq (.text "it's \x7b") false], ⟨[], []⟩, []⟩

theorem exists_items_bracedSample :
    (∀ l ∈ bracedSample.leaves, l.Clean) ∧
    bracedSample.tables = ["users", "posts_1", "tags", "users"] ∧
    ∃ items : List Item,
      items.filterMap Item.table? = bracedSample.tables.map String.toList ∧
      items.filterMap Item.value? = (bracedSample.compile .mySql).params ∧
      ∀ mode,
        Fragment.tables (Fragment.scan (bracedSample.sql .mySql mode).toList) =
          bracedSample.tables.map String.toList ∧
        bracedSample.sql .mySql mode =
          String.ofList (Item.write ⟨.mySql, mode⟩ Item.braced 0 items) ∧
        ∀ beginning : String, Fragment.expandTables beginning (bracedSample.sql .mySql mode) =
          String.ofList (Item.write ⟨.mySql, mode⟩ (beginning.toList ++ ·) 0 items) := by
  have h : ∀ l ∈ bracedSample.leaves, l.Clean := by decide
  exact ⟨h, rfl, exists_items bracedSample .mySql h⟩

end Query

end SelectSql
