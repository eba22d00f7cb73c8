import SelectSql.Proofs.Doc.Statement

/-!
# SelectSql.Proofs.Parameters

The values that are bound line up with the markers of the text: compiling binds the
values of a query in the order of the text, whatever the engine, and the engines with
`?` placeholders leave exactly one marker for each of them. Writing the names of the
tables in keeps the markers.

Main statement: `Query.params_line_up`.
-/

namespace SelectSql

/-! ## What is asked of the caller -/

/-- A fragment comes with a value for every marker. -/
def Leaf.Filled : Leaf → Prop
  | .fragment sql params => Fragment.countMarkers sql = params.length
  | _ => True

/-- A text without values has no markers. -/
def Leaf.Unmarked : Leaf → Prop
  | .text s => Fragment.countMarkers s = 0
  | .table name => Fragment.countMarkers name = 0
  | _ => True

theorem Leaf.written_eq {l : Leaf} (h : l.Filled) : l.written = l.values := by
  cases l with
  | fragment sql params => exact List.take_of_length_le (Nat.le_of_eq h.symm)
  | _ => rfl

/-- Every value of a tree is written if its fragments come with their values. -/
theorem Doc.values_eq {a : Doc} (h : ∀ l ∈ a.leaves, l.Filled) :
    a.values = a.leaves.flatMap Leaf.values := by
  rw [Doc.values, List.flatMap_def, List.flatMap_def]
  exact congrArg List.flatten (List.map_congr_left fun l hl => Leaf.written_eq (h l hl))

/-! ## Markers of the text -/

open Fragment (questionMarks)

/-- The engines whose placeholders are the markers themselves. -/
def Dialect.MarksPlainly (d : Dialect) : Prop :=
  ∀ i, d.placeholder i = "?"

theorem questionMarks_of_isOwnChar {cs : List Char} (h : cs.all isOwnChar = true) :
    questionMarks cs = 0 :=
  Fragment.questionMarks_of_not_mem (not_mem_of_isOwnChar h rfl)

section Text

variable {d : Dialect} (hd : d.MarksPlainly) (k : Nat)
include hd

theorem questionMarks_slot (v : Value) : questionMarks (Rendering.slot ⟨d, .bound⟩ k v) = 1 := by
  rw [Rendering.slot, hd]
  rfl

/-- Filled or not, a marker of a fragment remains a marker. -/
theorem questionMarks_ofSegments {ss : List Segment} (h : ∀ s ∈ ss, s.Sound) (vs : List Value) :
    questionMarks (Template.render ⟨d, .bound⟩ k (Template.ofSegments ss vs)) =
      Fragment.markers ss := by
  fun_induction Template.ofSegments ss vs generalizing k with
  | case1 vs => rfl
  | case2 ss v vs ih =>
      rw [Template.render, Fragment.questionMarks_append (Rendering.insideAfter_slot _ k v),
        questionMarks_slot hd, ih _ fun t ht => h t (by simp [ht]), Fragment.markers_cons,
        if_pos rfl]
  | case3 s ss vs hplain ih =>
      have hs := h s (by simp)
      rw [Template.render_append, Template.render_ofChars,
        Fragment.questionMarks_append (Fragment.insideAfter_chars hs),
        Fragment.questionMarks_chars hs, ih _ fun t ht => h t (by simp [ht]),
        Fragment.markers_cons]

/-- A leaf has as many markers as values. -/
theorem questionMarks_leaf {l : Leaf} (hbal : l.Balanced) (hfill : l.Filled)
    (hmark : l.Unmarked) :
    questionMarks (Template.render ⟨d, .bound⟩ k (l.template d)) = l.values.length := by
  cases l with
  | text s =>
      rw [Leaf.template, Template.render_ofChars,
        ← Fragment.markers_scan (Text.balanced_iff.1 hbal)]
      exact hmark
  | table name =>
      have hname : Text.insideAfter false name.toList = false := Text.balanced_iff.1 hbal
      have hopen : Text.insideAfter false ['\x7b'] = false := rfl
      rw [Leaf.template, Template.render_ofChars, ← List.singleton_append,
        Fragment.questionMarks_append hopen, Fragment.questionMarks_append hname,
        ← Fragment.markers_scan hname]
      exact congrArg (fun n => 0 + (n + 0)) hmark
  | fragment sql params =>
      rw [Leaf.template, questionMarks_ofSegments hd k
        (Fragment.sound_scan (Text.balanced_iff.1 hbal))]
      exact hfill
  | value v =>
      rw [Leaf.template, Template.render, Template.render_nil, List.append_nil,
        questionMarks_slot hd]
      rfl
  | escape c =>
      rw [Leaf.template, Template.render_ofChars, questionMarks, signs_escapeLiteral d hbal]
      rfl

/-- **A statement has as many markers as values.** -/
theorem questionMarks_text {a : Doc}
    (h : ∀ l ∈ a.leaves, l.Balanced ∧ l.Filled ∧ l.Unmarked) :
    questionMarks (a.text ⟨d, .bound⟩ k) = a.values.length := by
  induction a generalizing k with
  | own s plain =>
      rw [Doc.text]
      exact questionMarks_of_isOwnChar plain
  | leaf l =>
      obtain ⟨hbal, hfill, hmark⟩ := h l (by simp [Doc.leaves])
      have hvalues : (Doc.leaf l).values = l.values := by
        simp [Doc.values, Doc.leaves, Leaf.written_eq hfill]
      rw [Doc.text, questionMarks_leaf hd k hbal hfill hmark, hvalues]
  | append a b iha ihb =>
      obtain ⟨ha, hb⟩ := List.forall_mem_append.1 h
      have hsigns := Doc.signs_text_append (b := b) ⟨d, .bound⟩ k fun l hl => (ha l hl).1
      rw [questionMarks, hsigns, List.count_append, Doc.values_append, List.length_append]
      exact congrArg₂ (· + ·) (iha k ha) (ihb _ hb)
  | parens a ih =>
      have hbal : ∀ l ∈ a.leaves, l.Balanced := fun l hl => (h l hl).1
      rw [questionMarks, Doc.signs_text_parens _ k hbal, List.count_cons_of_ne (by decide),
        List.count_append]
      exact ih k h
  | collapsed a ih =>
      have hbal : ∀ l ∈ a.leaves, l.Balanced := fun l hl => (h l hl).1
      rw [questionMarks, Doc.signs_text_collapsed _ k hbal]
      exact ih k h
  | headed head plain a ih =>
      have ha : questionMarks (a.text ⟨d, .bound⟩ k) = a.values.length := ih k h
      rw [questionMarks, Doc.signs_text_headed]
      split
      · next hnil =>
        rw [List.isEmpty_iff.1 hnil] at ha
        exact ha
      · rw [List.count_append]
        exact (congrArg₂ (· + ·) (questionMarks_of_isOwnChar plain) ha).trans (Nat.zero_add _)
  | clause a b iha ihb =>
      obtain ⟨ha, hb⟩ := List.forall_mem_append.1 h
      have hsigns := Doc.signs_text_clause (b := b) ⟨d, .bound⟩ k fun l hl => (ha l hl).1
      rw [questionMarks, hsigns, List.count_append, Doc.values_clause, List.length_append]
      exact congrArg₂ (· + ·) (iha k ha) (ihb _ hb)

end Text

/-! ## Table names -/

namespace Fragment

/-- Writing table names in keeps a text balanced and keeps its markers, if what is put
in front of the names has neither quotes nor question marks. -/
theorem questionMarks_replaceTables {beginning : List Char} (hquote : '\'' ∉ beginning)
    (hmark : '?' ∉ beginning) {ss : List Segment} (h : ∀ s ∈ ss, s.Sound) :
    Text.insideAfter false (replaceTables (beginning ++ ·) ss) = false ∧
      questionMarks (replaceTables (beginning ++ ·) ss) = markers ss := by
  induction ss with
  | nil => exact ⟨rfl, rfl⟩
  | cons s ss ih =>
      have hs := h s (by simp)
      obtain ⟨hside, hcount⟩ := ih fun t ht => h t (by simp [ht])
      have hplain : Text.insideAfter false (s.chars ++ replaceTables (beginning ++ ·) ss) = false ∧
          questionMarks (s.chars ++ replaceTables (beginning ++ ·) ss) = markers (s :: ss) := by
        have hbal := insideAfter_chars hs
        rw [Text.insideAfter_append, hbal, questionMarks_append hbal, questionMarks_chars hs,
          hcount, markers_cons]
        exact ⟨hside, rfl⟩
      cases s with
      | table name =>
          -- the braces go, so the name no longer is the segment that was scanned
          have hname : '\'' ∉ beginning ++ name ∧ '?' ∉ beginning ++ name := by
            simp only [List.mem_append, not_or]
            exact ⟨⟨hquote, fun hq => (ne_of_isNameChar (hs _ hq)).1 rfl⟩,
              hmark, fun hq => (ne_of_isNameChar (hs _ hq)).2 rfl⟩
          have hbal := Text.insideAfter_of_not_mem hname.1 false
          rw [replaceTables, Text.insideAfter_append, hbal, questionMarks_append hbal,
            questionMarks_of_not_mem hname.2, hcount, markers_cons]
          exact ⟨hside, rfl⟩
      | _ => exact hplain

theorem countMarkers_expandTables {sql beginning : String}
    (h : Text.insideAfter false sql.toList = false) (hquote : '\'' ∉ beginning.toList)
    (hmark : '?' ∉ beginning.toList) :
    countMarkers (expandTables beginning sql) = countMarkers sql := by
  obtain ⟨hside, hcount⟩ := questionMarks_replaceTables hquote hmark (sound_scan h)
  rw [countMarkers, expandTables, String.toList_ofList, markers_scan hside, hcount, countMarkers]

end Fragment

/-! ## Statements -/

namespace Query

/-- **The bound values line up with the markers.** If every raw column comes with a
value for each of its markers, the bound values are those of the query in the order of
the text, for every engine. If moreover the quotes of the caller are balanced and the
other texts of the caller have no markers, the engines with `?` placeholders leave one
marker for each value, before and behind the expansion of table names. -/
theorem params_line_up (q : Query) (hfill : ∀ l ∈ q.leaves, l.Filled) :
    (∀ d, (q.compile d).params = q.values) ∧
    ((∀ l ∈ q.leaves, l.Balanced) → (∀ l ∈ q.leaves, l.Unmarked) →
      ∀ beginning : String, '\'' ∉ beginning.toList → '?' ∉ beginning.toList →
      ∀ d ∈ [Dialect.generic, .mySql, .sqlite],
        Fragment.countMarkers (q.compile d).sql = (q.compile d).params.length ∧
        Fragment.countMarkers (Fragment.expandTables beginning (q.compile d).sql) =
          (q.compile d).params.length) := by
  refine ⟨fun d => ?_, fun hbal hmark beginning hq hm d hd => ?_⟩
  · rw [← Query.leaves_doc d] at hfill
    rw [compile_eq, values, ← Query.leaves_doc d]
    exact Doc.values_eq hfill
  · have hplain : d.MarksPlainly := by
      simp only [List.mem_cons, List.not_mem_nil, or_false] at hd
      rcases hd with rfl | rfl | rfl <;> exact fun _ => rfl
    rw [← Query.leaves_doc d] at hfill hbal hmark
    have hside := Doc.insideAfter_text ⟨d, .bound⟩ 0 hbal
    have hcount : Fragment.countMarkers (q.compile d).sql = (q.compile d).params.length := by
      rw [compile_eq, Fragment.countMarkers, String.toList_ofList, Fragment.markers_scan hside]
      exact questionMarks_text hplain 0 fun l hl => ⟨hbal l hl, hfill l hl, hmark l hl⟩
    refine ⟨hcount, ?_⟩
    rw [Fragment.countMarkers_expandTables ?_ hq hm, hcount]
    rw [compile_eq, String.toList_ofList]
    exact hside

/-- A query with values in every clause. -/
def markedSample : Query :=
  ⟨.values [[.int 1, .text "a?'b"], [.null, .bool true]] (some ["x", "y"]) "m",
    { columns := [.raw "? + '?'" [.int 7] false, .named "x" none none] },
    [⟨.query ⟨.table "u" none, {}, [], [.fullText "a" "\x7bb\x7d  ?" false], ⟨[], []⟩, []⟩, .left,
      [⟨⟨"m.x", .eq, "j.id"⟩, none⟩], "j"⟩],
    [.anyOf [.pattern "c" "%?%" true { escape := '?' }, .comparison "d" .lt (.int 3) false]],
    ⟨["x"], [⟨.and, .comparison "COUNT(*)" .gt (.int 2) false⟩]⟩, [⟨"x", true⟩]⟩

theorem params_line_up_markedSample :
    (∀ d, (markedSample.compile d).params = markedSample.values) ∧
    ∀ d ∈ [Dialect.generic, .mySql, .sqlite],
      Fragment.countMarkers (markedSample.compile d).sql = (markedSample.compile d).params.length ∧
      Fragment.countMarkers (Fragment.expandTables "wp_" (markedSample.compile d).sql) =
        (markedSample.compile d).params.length := by
  have hcount {s : String} (h : Text.insideAfter false s.toList = false) :
      Fragment.countMarkers s = questionMarks s.toList := Fragment.markers_scan h
  have hleaves : ∀ l ∈ markedSample.leaves, l.Balanced ∧ l.Filled ∧ l.Unmarked := by
    show ∀ l ∈ [Leaf.fragment "? + '?'" [.int 7], .text "x", .value (.int 1),
      .value (.text "a?'b"), .value .null, .value (.bool true), .text "m", .text "x", .text "y",
      .table "u", .text "a", .value (.text "\x7bb\x7d  ?"), .text "j", .text "m.x", .text "j.id",
      .text "c", .value (.text "%?%"), .escape '?', .text "d", .value (.int 3), .text "x",
      .text "COUNT(*)", .value (.int 2), .text "x"], l.Balanced ∧ l.Filled ∧ l.Unmarked
    simp (disch := decide) only [List.forall_mem_cons, Leaf.Filled, Leaf.Unmarked, hcount,
      List.not_mem_nil, false_imp_iff, implies_true]
    and_intros <;> decide
  obtain ⟨hparams, hmarkers⟩ := params_line_up markedSample fun l hl => (hleaves l hl).2.1
  exact ⟨hparams, hmarkers (fun l hl => (hleaves l hl).1) (fun l hl => (hleaves l hl).2.2)
    "wp_" (by decide) (by decide)⟩

end Query

end SelectSql
