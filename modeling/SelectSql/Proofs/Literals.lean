import SelectSql.Proofs.Doc.Spread
import SelectSql.Proofs.Legible
import SelectSql.Proofs.Parameters

/-!
# SelectSql.Proofs.Literals

Every text that a query holds as a value can be read back from its inline SQL, and shows
nowhere but in its own literal.

Design points:

* **An escape character is a text of one character** (`Leaf.inlined`): except in MySQL it is
  quoted as values are, so it is read back with them, a quote included.
* **The outline of a text** (`Fragment.outline`) is the text with its literals taken out.
  Data that is text does not reach the outline.

Main statement: `Query.literals_inline`.
-/

namespace SelectSql

/-! ## What is asked of the caller -/

/-- A text of the caller has no quote. Values may have any. -/
def Leaf.Unquoted : Leaf → Prop
  | .text s => '\'' ∉ s.toList
  | .table name => '\'' ∉ name.toList
  | .fragment sql _ => '\'' ∉ sql.toList
  | _ => True

/-- No two markers of a fragment touch. -/
def Leaf.Apart : Leaf → Prop
  | .fragment sql _ => ¬ ['?', '?'] <:+: sql.toList
  | _ => True

/-! ## The texts of a query -/

/-- The text that a value is, if it is one. -/
def Value.text? : Value → Option String
  | .text s => some s
  | _ => none

/-- The texts that are written as literals for a leaf. -/
def Leaf.strings : Leaf → List String
  | .fragment _ params => params.filterMap Value.text?
  | .value v => v.text?.toList
  | .escape c => [String.singleton c]
  | _ => []

/-- The texts of a query that are written as literals, in the order of the statement: the
values that are texts, and behind the text of a pattern its escape character. -/
def Query.strings (q : Query) : List String :=
  q.leaves.flatMap Leaf.strings

/-- A value without its text. -/
def Value.withoutText : Value → Value
  | .text _ => .text ""
  | v => v

theorem Value.forgets_withoutText : Forgets Value.withoutText where
  text _ _ := rfl
  idem v := by cases v <;> rfl

/-! ## Outlines -/

namespace Fragment

/-- The characters outside the literals of a text, with nothing in the place of each
literal. -/
def outline (ss : List Segment) : List (Option Char) :=
  ss.flatMap fun
    | .literal _ => [none]
    | s => s.chars.map some

end Fragment

/-- A symbol without its value. -/
def Symbol.char? : Symbol → Option Char
  | .char c => some c
  | .value _ => none

theorem Template.map_char?_ofChars (cs : List Char) :
    (ofChars cs).map Symbol.char? = cs.map some := by
  rw [ofChars, List.map_map]
  rfl

/-- The outline is what is read, without the contents of the literals. -/
theorem Fragment.outline_scan (cs : List Char) :
    outline (scan cs) = (symbols cs).map Symbol.char? := by
  have hsegment (s : Segment) : (match s with
      | .literal _ => [none]
      | s => s.chars.map some) = s.symbols.map Symbol.char? := by
    cases s with
    | literal content => rfl
    | _ => exact (Template.map_char?_ofChars _).symm
  rw [outline, symbols, List.map_flatMap]
  exact congrArg (List.flatMap · (scan cs)) (funext hsegment)

/-! ## What is spelled out -/

namespace Template

/-- The texts among the values of a template are read back as they are. -/
theorem values_spell (d : Dialect) (t : Template) :
    values (t.flatMap (spell d)) = ((values t).filterMap Value.text?).map .text := by
  induction t with
  | nil => rfl
  | cons x t ih =>
      rw [List.flatMap_cons, values_append, ih]
      cases x with
      | char c => rfl
      | value v =>
          cases v with
          | text s => rfl
          | _ => exact congrArg (· ++ _) (values_ofChars _)

/-- Outside its literals what is read does not depend on the texts of a template. -/
theorem map_char?_spell (d : Dialect) (t : Template) :
    (t.flatMap (spell d)).map Symbol.char? =
      ((t.erase Value.withoutText).flatMap (spell d)).map Symbol.char? := by
  have hspell (x : Symbol) : (spell d x).map Symbol.char? =
      (spell d (x.erase Value.withoutText)).map Symbol.char? := by
    cases x with
    | char c => rfl
    | value v => cases v <;> rfl
  rw [erase, List.map_flatMap, List.map_flatMap, List.flatMap_map]
  exact congrArg (List.flatMap · t) (funext hspell)

/-- The inline text does not count the values before it. -/
theorem render_inline (d : Dialect) (t : Template) (j k : Nat) :
    render ⟨d, .inline⟩ j t = render ⟨d, .inline⟩ k t := by
  induction t generalizing j k with
  | nil => rfl
  | cons x t ih =>
      cases x with
      | char c => exact congrArg (c :: ·) (ih j k)
      | value v => exact congrArg (Rendering.slot ⟨d, .inline⟩ k v ++ ·) (ih (j + 1) (k + 1))

end Template

/-! ## Escape characters as values -/

/-- The leaf with its escape character as a value. -/
def Leaf.inlined : Leaf → Leaf
  | .escape c => .value (.text (String.singleton c))
  | l => l

theorem Leaf.inlined_unquoted {l : Leaf} (h : l.Unquoted) : l.inlined.Balanced := by
  cases l with
  | text s => exact Text.balanced_of_not_mem h
  | table name => exact Text.balanced_of_not_mem h
  | fragment sql params => exact Text.balanced_of_not_mem h
  | value v => trivial
  | escape c => trivial

theorem Leaf.asked_erase (f : Value → Value) (l : Leaf) :
    (l.erase f).Unquoted ∧ (l.erase f).Apart ↔ l.Unquoted ∧ l.Apart := by
  cases l <;> rfl

/-- Erasing the values first erases no more. -/
theorem Doc.erase_inlined {f : Value → Value} (hf : Forgets f) (a : Doc) :
    (a.map Leaf.inlined).map (Leaf.erase f) =
      ((a.map (Leaf.erase f)).map Leaf.inlined).map (Leaf.erase f) := by
  rw [map_map, map_map, map_map]
  refine congrArg (a.map ·) (funext fun l => ?_)
  cases l <;> simp [Leaf.inlined, Leaf.erase, Function.comp_def, hf.idem]

/-- The texts of a leaf are those among the values that are written for it. -/
theorem Leaf.strings_eq {l : Leaf} (h : l.Filled) :
    l.strings = l.inlined.written.filterMap Value.text? := by
  cases l with
  | fragment sql params => exact congrArg (List.filterMap Value.text?) (Leaf.written_eq h).symm
  | value v => cases v <;> rfl
  | _ => rfl

/-- Where escape characters are quoted as values are, they can be taken for values. -/
theorem Doc.text_inlined {d : Dialect} (hd : d ≠ .mySql) (a : Doc) (j k : Nat) :
    (a.map Leaf.inlined).text ⟨d, .inline⟩ j = a.text ⟨d, .inline⟩ k := by
  induction a generalizing j k with
  | own s plain => rfl
  | leaf l =>
      cases l with
      | escape c =>
          have hliteral : d.escapeLiteral c = Text.Quoted.quote (String.singleton c) := by
            cases d <;> first | rfl | exact absurd rfl hd
          rw [map_leaf, Leaf.inlined, text_value, text_escape, hliteral]
          rfl
      | _ => exact Template.render_inline d _ j k
  | append a b iha ihb => rw [map, text, text, iha j k, ihb _ _]
  | parens a ih => rw [map, text, text, ih j k]
  | collapsed a ih => rw [map, text, text, ih j k]
  | headed head plain a ih => rw [map, text, text, ih j k]
  | clause a b iha ihb => rw [map, text, text, iha j k, ihb _ _]

/-! ## Statements are legible -/

theorem Segment.chars_ne_nil (s : Segment) : s.chars ≠ [] := by
  cases s <;> simp [chars, Text.Quoted.encode]

namespace Template

/-- A value comes first only where a marker does. -/
theorem mayFollow_ofSegments {ss : List Segment} {vs : List Value} (v : Value)
    (h : ss.head? ≠ some .marker) (hchain : (Template.ofSegments ss vs).IsChain MayFollow) :
    (.value v :: Template.ofSegments ss vs).IsChain MayFollow := by
  refine List.isChain_cons.2 ⟨fun y hy => ?_, hchain⟩
  cases ss with
  | nil => simp [Template.ofSegments] at hy
  | cons s ss =>
      obtain ⟨c, cs, hcs⟩ := List.exists_cons_of_ne_nil s.chars_ne_nil
      rw [Template.ofSegments, hcs] at hy
      · obtain rfl : Symbol.char c = y := by simpa using hy
        exact mayFollow_char_right _ c
      · intro w ws _ hs
        exact h (by simp [hs])

/-- A fragment without quotes is legible if no two of its markers touch. -/
theorem Legible.ofSegments {ss : List Segment} {vs : List Value}
    (hquote : ∀ s ∈ ss, '\'' ∉ s.chars)
    (hapart : ss.IsChain fun s s' => ¬ (s = .marker ∧ s' = .marker)) :
    Legible (Template.ofSegments ss vs) := by
  fun_induction Template.ofSegments ss vs with
  | case1 vs => exact Legible.nil
  | case2 ss v vs ih =>
      obtain ⟨hfirst, hrest⟩ := List.isChain_cons.1 hapart
      have hlegible := ih (fun s hs => hquote s (by simp [hs])) hrest
      have hhead : ss.head? ≠ some .marker := fun h => hfirst _ h ⟨rfl, rfl⟩
      exact ⟨by simp [hlegible.unquoted], mayFollow_ofSegments v hhead hlegible.apart⟩
  | case3 s ss vs hplain ih =>
      have hlegible := ih (fun s hs => hquote s (by simp [hs])) hapart.tail
      exact (Legible.ofChars (hquote s (by simp))).append_left hlegible (values_ofChars _)

end Template

open Template (Legible)

/-- The markers of a text do not touch if no two question marks do. -/
theorem Fragment.isChain_scan {cs : List Char} (h : ¬ ['?', '?'] <:+: cs) :
    (scan cs).IsChain fun s s' => ¬ (s = .marker ∧ s' = .marker) := by
  refine List.isChain_iff_forall_rel_of_append_cons_cons.2
    fun s s' front back hscan hmarkers => h ?_
  obtain ⟨rfl, rfl⟩ := hmarkers
  have hchars := flatMap_chars_scan cs
  rw [hscan, List.flatMap_append] at hchars
  refine ⟨front.flatMap Segment.chars, back.flatMap Segment.chars, ?_⟩
  simpa [Segment.chars] using hchars

theorem Leaf.legible_inlined (d : Dialect) {l : Leaf} (hquote : l.Unquoted) (hapart : l.Apart) :
    Legible (l.inlined.template d) := by
  cases l with
  | text s => exact Legible.ofChars hquote
  | table name =>
      refine Legible.ofChars fun h => ?_
      simp only [List.mem_cons, List.mem_append, List.not_mem_nil, or_false] at h
      rcases h with h | h | h
      · exact absurd h (by decide)
      · exact hquote h
      · exact absurd h (by decide)
  | fragment sql params =>
      refine Legible.ofSegments (fun s hs hmem => hquote ?_) (Fragment.isChain_scan hapart)
      rw [← Fragment.flatMap_chars_scan sql.toList]
      exact List.mem_flatMap.2 ⟨s, hs, hmem⟩
  | value v => exact Legible.value v
  | escape c => exact Legible.value _

namespace Doc

/-- A tree with nothing but names has no values. -/
theorem Named.values_template {a : Doc} (h : a.Named) (d : Dialect) :
    Template.values ((a.map Leaf.inlined).template d) = [] := by
  rw [Doc.values_template, values, leaves_map, List.flatMap_eq_nil_iff]
  intro l hl
  obtain ⟨l, hmem, rfl⟩ := List.mem_map.1 hl
  have hname := h l hmem
  cases l <;> first | rfl | exact hname.elim

/-- A tree that begins with a word of the writer begins with a character. -/
theorem Led.template {a : Doc} (h : a.Led) (d : Dialect) :
    ∃ c t, (a.map Leaf.inlined).template d = .char c :: t := by
  induction a with
  | own s plain =>
      obtain ⟨c, cs, hcs⟩ := List.exists_cons_of_ne_nil h
      exact ⟨c, Template.ofChars cs, by rw [map, Doc.template, hcs, Template.ofChars_cons]⟩
  | append a b iha ihb =>
      obtain ⟨c, t, ht⟩ := iha h
      exact ⟨c, t ++ (b.map Leaf.inlined).template d, by rw [map, Doc.template, ht]; rfl⟩
  | parens a ih => exact ⟨'(', _, rfl⟩
  | _ => exact h.elim

theorem legible_own (s : String) (h : s.toList.all isOwnChar = true) :
    Legible (Template.ofChars s.toList) :=
  Legible.ofChars (not_mem_of_isOwnChar h rfl)

/-- **A spread tree is legible.** -/
theorem Spread.legible {a : Doc} (h : a.Spread) (d : Dialect)
    (hleaves : ∀ l ∈ a.leaves, l.Unquoted ∧ l.Apart) :
    Legible ((a.map Leaf.inlined).template d) := by
  induction a with
  | own s plain => exact legible_own s plain
  | leaf l =>
      obtain ⟨hquote, hapart⟩ := hleaves l (by simp [leaves])
      exact Leaf.legible_inlined d hquote hapart
  | append a b iha ihb =>
      obtain ⟨hla, hlb⟩ := List.forall_mem_append.1 hleaves
      obtain ⟨ha, hb, hbetween⟩ := h
      have hlegible := ihb hb hlb
      rcases hbetween with hname | hname | hled
      · exact (iha ha hla).append_left hlegible (hname.values_template d)
      · exact (iha ha hla).append_right hlegible (hname.values_template d)
      · obtain ⟨c, t, ht⟩ := hled.template d
        rw [ht] at hlegible
        rw [map, Doc.template, ht]
        exact (iha ha hla).append_char hlegible
  | parens a ih =>
      have hclose : Legible [.char ')'] := Legible.nil.cons_char (by decide)
      have hinner := (ih h hleaves).append_right hclose rfl
      exact hinner.cons_char (by decide)
  | collapsed a ih => exact (ih h hleaves).collapse
  | headed head plain a ih =>
      rw [map, Doc.template, under]
      split
      · exact Legible.nil
      · exact (legible_own head plain).append_left (ih h hleaves) (Template.values_ofChars _)
  | clause a b iha ihb =>
      obtain ⟨hla, hlb⟩ := List.forall_mem_append.1 hleaves
      obtain ⟨ha, hb⟩ := h
      have hlegible := ihb hb hlb
      rw [map, Doc.template, spaced]
      split
      · exact hlegible
      · split
        · exact (iha ha hla).trim
        · exact (iha ha hla).trim.append_char (hlegible.cons_char (by decide))

end Doc

/-! ## Reading a statement -/

namespace Query

/-- What is read of a statement: its template, with the values that are no texts spelled
out. -/
theorem symbols_inline {q : Query} {d : Dialect} (hd : d ≠ .mySql)
    (h : ∀ l ∈ q.leaves, l.Unquoted ∧ l.Apart) :
    Fragment.symbols (q.inline d).toList =
      (((q.doc d).map Leaf.inlined).template d).flatMap (Template.spell d) := by
  rw [← Query.leaves_doc d] at h
  have hbal : ∀ l ∈ ((q.doc d).map Leaf.inlined).leaves, l.Balanced := by
    rw [Doc.leaves_map]
    intro l hl
    obtain ⟨l, hmem, rfl⟩ := List.mem_map.1 hl
    exact Leaf.inlined_unquoted (h l hmem).1
  have hlegible := (Query.spread_doc d q).legible d h
  rw [inline_eq, String.toList_ofList, ← Doc.text_inlined hd (q.doc d) 0 0,
    Doc.text_eq_render hbal ⟨d, .inline⟩ 0]
  exact Template.symbols_render hlegible d 0

/-- The literals of a statement hold its texts. -/
theorem literals_scan {q : Query} {d : Dialect} (hd : d ≠ .mySql)
    (h : ∀ l ∈ q.leaves, l.Unquoted ∧ l.Apart) (hfill : ∀ l ∈ q.leaves, l.Filled) :
    Fragment.literals (Fragment.scan (q.inline d).toList) = q.strings.map String.toList := by
  have hstrings : (((q.doc d).map Leaf.inlined).values).filterMap Value.text? = q.strings := by
    rw [Doc.values, Doc.leaves_map, Query.leaves_doc, List.flatMap_map, List.filterMap_flatMap,
      strings, List.flatMap_def, List.flatMap_def]
    exact congrArg List.flatten
      (List.map_congr_left fun l hl => (Leaf.strings_eq (hfill l hl)).symm)
  have hread := congrArg Template.values (symbols_inline hd h)
  rw [Fragment.values_symbols, Template.values_spell, Doc.values_template, hstrings] at hread
  have hcontents : q.strings.map Value.text =
      (q.strings.map String.toList).map fun content => .text (String.ofList content) := by
    simp [Function.comp_def]
  have hinj (x y : List Char) (hxy : Value.text (String.ofList x) = .text (String.ofList y)) :
      x = y := by
    simpa using congrArg String.toList (Value.text.inj hxy)
  exact (List.map_inj_right hinj).1 (hread.trans hcontents)

/-- What is asked of the caller does not concern the values. -/
theorem asked_of_erase {q q' : Query} (d : Dialect) {f : Value → Value}
    (hdoc : (q'.doc d).map (Leaf.erase f) = (q.doc d).map (Leaf.erase f))
    (h : ∀ l ∈ q.leaves, l.Unquoted ∧ l.Apart) : ∀ l ∈ q'.leaves, l.Unquoted ∧ l.Apart := by
  have hleaves := congrArg Doc.leaves hdoc
  rw [Doc.leaves_map, Doc.leaves_map, Query.leaves_doc, Query.leaves_doc] at hleaves
  intro l hl
  have hmem : l.erase f ∈ q.leaves.map (Leaf.erase f) := hleaves ▸ List.mem_map_of_mem hl
  obtain ⟨l₀, hl₀, heq⟩ := List.mem_map.1 hmem
  rw [← Leaf.asked_erase f, ← heq, Leaf.asked_erase]
  exact h l₀ hl₀

/-- Queries that differ in their texts only have the same outline. -/
theorem outline_of_erase {q q' : Query} {d : Dialect} (hd : d ≠ .mySql)
    (h : ∀ l ∈ q.leaves, l.Unquoted ∧ l.Apart)
    (herase : q'.erase Value.withoutText = q.erase Value.withoutText) :
    Fragment.outline (Fragment.scan (q'.inline d).toList) =
      Fragment.outline (Fragment.scan (q.inline d).toList) := by
  have hforget := Value.forgets_withoutText
  have hdoc : (q'.doc d).map (Leaf.erase Value.withoutText) =
      (q.doc d).map (Leaf.erase Value.withoutText) := by
    rw [← Query.erase_doc hforget d q', ← Query.erase_doc hforget d q, herase]
  have htemplate : (((q'.doc d).map Leaf.inlined).template d).erase Value.withoutText =
      (((q.doc d).map Leaf.inlined).template d).erase Value.withoutText := by
    rw [← Doc.template_erase, ← Doc.template_erase, Doc.erase_inlined hforget (q'.doc d), hdoc,
      ← Doc.erase_inlined hforget (q.doc d)]
  rw [Fragment.outline_scan, Fragment.outline_scan, symbols_inline hd h,
    symbols_inline hd (asked_of_erase d hdoc h), Template.map_char?_spell, htemplate,
    ← Template.map_char?_spell]

/-- **Texts stay in their literals.** Unless the engine is MySQL, the literals of the inline
SQL hold the texts of the query in the order of the statement, and other texts in their place
change nothing outside these literals. It is asked that the other texts of the caller have no
quotes, and that raw fragments come with a value for each marker and have no markers that
touch. -/
theorem literals_inline {q : Query} {d : Dialect} (hd : d ≠ .mySql)
    (hquote : ∀ l ∈ q.leaves, l.Unquoted) (hfill : ∀ l ∈ q.leaves, l.Filled)
    (hapart : ∀ l ∈ q.leaves, l.Apart) :
    Fragment.literals (Fragment.scan (q.inline d).toList) = q.strings.map String.toList ∧
    ∀ q' : Query, q'.erase Value.withoutText = q.erase Value.withoutText →
      Fragment.outline (Fragment.scan (q'.inline d).toList) =
        Fragment.outline (Fragment.scan (q.inline d).toList) := by
  have h : ∀ l ∈ q.leaves, l.Unquoted ∧ l.Apart := fun l hl => ⟨hquote l hl, hapart l hl⟩
  exact ⟨literals_scan hd h hfill, fun q' herase => outline_of_erase hd h herase⟩

/-- A query whose texts look like SQL, in a joined query as well. -/
def quotingSample : Query :=
  ⟨.table "t" (some "s"), { columns := [.raw "? + ?" [.text "it's", .int 1] false] },
    [⟨.query ⟨.table "u" none, {}, [], [.fullText "a" "\x7bu\x7d  ?" false], ⟨[], []⟩, []⟩, .left,
      [⟨⟨"s.id", .eq, "j.id"⟩, none⟩], "j"⟩],
    [.comparison "b" .eq (.text "' OR '1'='1") false,
      .pattern "c" "100'%" false { escape := '\'' }], ⟨[], []⟩, []⟩

theorem literals_inline_quotingSample :
    Fragment.literals (Fragment.scan (quotingSample.inline .sqlite).toList) =
      ["it's", "\x7bu\x7d  ?", "' OR '1'='1", "100'%", "'"].map String.toList ∧
    Fragment.outline
        (Fragment.scan ((quotingSample.erase Value.withoutText).inline .sqlite).toList) =
      Fragment.outline (Fragment.scan (quotingSample.inline .sqlite).toList) := by
  have hcount {s : String} (h : Text.insideAfter false s.toList = false) :
      Fragment.countMarkers s = Fragment.questionMarks s.toList := Fragment.markers_scan h
  have hleaves : ∀ l ∈ quotingSample.leaves, l.Unquoted ∧ l.Filled ∧ l.Apart := by
    show ∀ l ∈ [Leaf.fragment "? + ?" [.text "it's", .int 1], .table "t", .text "s", .table "u",
      .text "a", .value (.text "\x7bu\x7d  ?"), .text "j", .text "s.id", .text "j.id",
      .text "b", .value (.text "' OR '1'='1"), .text "c", .value (.text "100'%"), .escape '\''],
      l.Unquoted ∧ l.Filled ∧ l.Apart
    simp (disch := decide) only [List.forall_mem_cons, Leaf.Unquoted, Leaf.Filled, Leaf.Apart,
      hcount, List.not_mem_nil, false_imp_iff, implies_true]
    and_intros <;> decide
  obtain ⟨hliterals, houtline⟩ := literals_inline (d := .sqlite) (by decide)
    (fun l hl => (hleaves l hl).1) (fun l hl => (hleaves l hl).2.1) fun l hl => (hleaves l hl).2.2
  exact ⟨hliterals, houtline _ rfl⟩

end Query

end SelectSql
