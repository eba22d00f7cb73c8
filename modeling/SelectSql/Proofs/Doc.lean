import SelectSql.Proofs.Leaves
import SelectSql.Proofs.Template
import SelectSql.Statement

/-!
# SelectSql.Proofs.Doc

The text of a statement as a tree: which words are the writer's own, where the leaves
of the caller stand, what is in parentheses, what is collapsed, and which clauses are
put together. Properties of statements are proved by induction on this tree, which has
a constructor for every way in which text is made.

Design points:

* **The writer's own words are plain** (`isOwnChar`): no quote, no marker, no
  parenthesis and no brace is written except by a constructor for it.
* **A tree has two readings.** `Doc.text` is the text in a mode behind some number of
  values; `Doc.template` is the template that both modes share. They agree on trees
  with balanced leaves (`text_eq_render`).
* **What is found in a template is found in its leaves**, whatever is looked for: values,
  tables, or names in braces (`Template.Collects`).
-/

namespace SelectSql

/-! ## Trees -/

/-- The characters of the writer's own words. -/
def isOwnChar (c : Char) : Bool :=
  !(['\'', '?', '(', ')', '\x7b', '\x7d'].contains c)

theorem not_mem_of_isOwnChar {cs : List Char} (h : cs.all isOwnChar = true) {c : Char}
    (hc : isOwnChar c = false) : c ∉ cs := by
  intro hmem
  rw [List.all_eq_true.1 h c hmem] at hc
  contradiction

/-- How the text of a statement is made. -/
inductive Doc
  /-- A word or sign of the writer. -/
  | own (s : String) (plain : s.toList.all isOwnChar = true)
  /-- A piece from the caller. -/
  | leaf (l : Leaf)
  | append (a b : Doc)
  /-- A text in parentheses. -/
  | parens (a : Doc)
  /-- A text whose runs of blanks are collapsed. -/
  | collapsed (a : Doc)
  /-- A word in front of a text, unless that is empty. -/
  | headed (head : String) (plain : head.toList.all isOwnChar = true) (a : Doc)
  /-- A clause in front of others: it is trimmed, and a space follows it. Of an empty
  side nothing is written. -/
  | clause (a rest : Doc)

/-- Two texts with a separator between them, if neither is empty. -/
def spaced {α : Type} (sep : α) (xs ys : List α) : List α :=
  if xs.isEmpty then ys else if ys.isEmpty then xs else xs ++ sep :: ys

/-- A text behind a heading, unless it is empty. -/
def under {α : Type} (head xs : List α) : List α :=
  if xs.isEmpty then [] else head ++ xs

namespace Doc

instance : Append Doc := ⟨.append⟩

theorem append_eq (a b : Doc) : Doc.append a b = a ++ b := rfl

/-- A word of the writer. -/
def word (s : String) (plain : s.toList.all isOwnChar = true := by decide) : Doc :=
  .own s plain

/-- The space between two words. -/
abbrev space : Doc := word " "

/-- What separates the items of a list. -/
abbrev comma : Doc := word ", "

/-- The word in front of an alias. -/
abbrev asWord : Doc := word " AS "

/-- A text of the caller. -/
def name (s : String) : Doc :=
  .leaf (.text s)

/-- Nothing. -/
def empty : Doc :=
  word ""

/-- Trees with a word between them. -/
def sep (s : Doc) : List Doc → Doc
  | [] => empty
  | [a] => a
  | a :: b :: rest => a ++ (s ++ sep s (b :: rest))

/-- A list of clauses. -/
def clauses : List Doc → Doc
  | [] => empty
  | a :: rest => .clause a (clauses rest)

/-- The leaves of a tree. -/
def leaves : Doc → List Leaf
  | .own .. => []
  | .leaf l => [l]
  | .append a b => a.leaves ++ b.leaves
  | .parens a => a.leaves
  | .collapsed a => a.leaves
  | .headed _ _ a => a.leaves
  | .clause a rest => a.leaves ++ rest.leaves

end Doc

/-! ## The texts of leaves -/

/-- The literal of an escape character. -/
def Dialect.escapeLiteral (d : Dialect) (c : Char) : String :=
  match d with
  | .mySql => Dialect.mySqlEscape c
  | _ => Text.Quoted.quote (String.singleton c)

/-- The template of segments with values for their markers. -/
def Template.ofSegments : List Segment → List Value → Template
  | [], _ => []
  | .marker :: ss, v :: vs => .value v :: Template.ofSegments ss vs
  | s :: ss, vs => Template.ofChars s.chars ++ Template.ofSegments ss vs

/-- The template of a leaf. -/
def Leaf.template (d : Dialect) : Leaf → Template
  | .text s => Template.ofChars s.toList
  | .table name => Template.ofChars ('\x7b' :: (name.toList ++ ['\x7d']))
  | .fragment sql params => Template.ofSegments (Fragment.scan sql.toList) params
  | .value v => [.value v]
  | .escape c => Template.ofChars (d.escapeLiteral c).toList

/-- The values of a leaf that are written: of a fragment those that have a marker. -/
def Leaf.written : Leaf → List Value
  | .fragment sql params => params.take (Fragment.countMarkers sql)
  | l => l.values

namespace Doc

/-- The values of a tree that are written. -/
def values (a : Doc) : List Value :=
  a.leaves.flatMap Leaf.written

/-! ## The two readings -/

/-- The text of a tree behind `k` values. -/
def text (r : Rendering) : Nat → Doc → List Char
  | _, .own s _ => s.toList
  | k, .leaf l => Template.render r k (l.template r.dialect)
  | k, .append a b => a.text r k ++ b.text r (k + a.values.length)
  | k, .parens a => '(' :: (a.text r k ++ [')'])
  | k, .collapsed a => Fragment.collapseChars (a.text r k)
  | k, .headed head _ a => under head.toList (a.text r k)
  | k, .clause a rest =>
    spaced ' ' (Text.trimChars (a.text r k)) (rest.text r (k + a.values.length))

/-- The template of a tree. -/
def template (d : Dialect) : Doc → Template
  | .own s _ => Template.ofChars s.toList
  | .leaf l => l.template d
  | .append a b => a.template d ++ b.template d
  | .parens a => .char '(' :: (a.template d ++ [.char ')'])
  | .collapsed a => (a.template d).collapse
  | .headed head _ a => under (Template.ofChars head.toList) (a.template d)
  | .clause a rest => spaced (.char ' ') (a.template d).trim (rest.template d)

@[simp] theorem text_word (r : Rendering) (k : Nat) (s : String)
    (h : s.toList.all isOwnChar = true) : (word s h).text r k = s.toList := rfl

@[simp] theorem text_own (r : Rendering) (k : Nat) (s : String)
    (h : s.toList.all isOwnChar = true) : (own s h).text r k = s.toList := rfl

@[simp] theorem text_append (r : Rendering) (k : Nat) (a b : Doc) :
    (a ++ b).text r k = a.text r k ++ b.text r (k + a.values.length) := rfl

@[simp] theorem text_parens (r : Rendering) (k : Nat) (a : Doc) :
    (parens a).text r k = '(' :: (a.text r k ++ [')']) := rfl

@[simp] theorem text_collapsed (r : Rendering) (k : Nat) (a : Doc) :
    (collapsed a).text r k = Fragment.collapseChars (a.text r k) := rfl

theorem text_headed (r : Rendering) (k : Nat) (head : String)
    (h : head.toList.all isOwnChar = true) (a : Doc) :
    (headed head h a).text r k = under head.toList (a.text r k) := rfl

theorem text_clause (r : Rendering) (k : Nat) (a b : Doc) :
    (clause a b).text r k =
      spaced ' ' (Text.trimChars (a.text r k)) (b.text r (k + a.values.length)) := rfl

theorem template_append (d : Dialect) (a b : Doc) :
    (a ++ b).template d = a.template d ++ b.template d := rfl

theorem template_parens (d : Dialect) (a : Doc) :
    (parens a).template d = .char '(' :: (a.template d ++ [.char ')']) := rfl

theorem template_collapsed (d : Dialect) (a : Doc) :
    (collapsed a).template d = (a.template d).collapse := rfl

theorem template_headed (d : Dialect) (head : String) (h : head.toList.all isOwnChar = true)
    (a : Doc) : (headed head h a).template d = under (Template.ofChars head.toList) (a.template d) :=
  rfl

theorem template_clause (d : Dialect) (a b : Doc) :
    (clause a b).template d = spaced (.char ' ') (a.template d).trim (b.template d) := rfl

end Doc

/-! ## Templates are closed -/

/-- The quotes of a leaf are balanced, and its escape character is no quote. -/
def Leaf.Balanced : Leaf → Prop
  | .text s => Text.Balanced s.toList
  | .table name => Text.Balanced name.toList
  | .fragment sql _ => Text.Balanced sql.toList
  | .value _ => True
  | .escape c => c ≠ '\''

instance : DecidablePred Leaf.Balanced
  | .text s => inferInstanceAs (Decidable (Text.Balanced s.toList))
  | .table name => inferInstanceAs (Decidable (Text.Balanced name.toList))
  | .fragment sql _ => inferInstanceAs (Decidable (Text.Balanced sql.toList))
  | .value _ => inferInstanceAs (Decidable True)
  | .escape c => inferInstanceAs (Decidable (c ≠ '\''))

open Template

/-- The values of a filled fragment are those that have a marker. -/
theorem values_ofSegments (ss : List Segment) (vs : List Value) :
    values (Template.ofSegments ss vs) = vs.take (Fragment.markers ss) := by
  fun_induction Template.ofSegments ss vs with
  | case1 vs => simp [Fragment.markers]
  | case2 ss v vs ih => simp [ih, Fragment.markers]
  | case3 s ss vs hplain ih =>
      rw [values_append, values_ofChars, List.nil_append, ih, Fragment.markers_cons]
      split
      · next hs =>
        -- a marker stays only where the values have run out
        cases vs with
        | nil => simp
        | cons v vs => exact (hplain v vs rfl hs).elim
      · rw [Nat.zero_add]

@[simp] theorem Leaf.values_template (d : Dialect) (l : Leaf) :
    Template.values (l.template d) = l.written := by
  cases l with
  | text s => exact values_ofChars _
  | table name => exact values_ofChars _
  | fragment sql params => exact values_ofSegments _ _
  | value v => rfl
  | escape c => exact values_ofChars _

theorem closed_ofSegments {ss : List Segment} (h : ∀ s ∈ ss, s.Sound) (vs : List Value) :
    Closed (Template.ofSegments ss vs) := by
  fun_induction Template.ofSegments ss vs with
  | case1 vs => exact Closed.nil
  | case2 ss v vs ih => exact (Closed.value v).append (ih fun t ht => h t (by simp [ht]))
  | case3 s ss vs hplain ih =>
      have hs := Closed.ofChars (Fragment.insideAfter_chars (h s (by simp)))
      exact hs.append (ih fun t ht => h t (by simp [ht]))

/-- An escape character other than the quote stands in a literal. -/
theorem exists_escapeLiteral (d : Dialect) {c : Char} (h : c ≠ '\'') :
    ∃ s, (d.escapeLiteral c).toList = Text.Quoted.encode s := by
  cases d with
  | mySql =>
      rw [Dialect.escapeLiteral, Dialect.mySqlEscape]
      split
      · exact ⟨['\\', '\\'], rfl⟩
      · exact ⟨[c], by simp [Text.Quoted.encode, Text.Quoted.double, h]⟩
  | _ => exact ⟨[c], by simp [Dialect.escapeLiteral, Text.Quoted.toList_quote]⟩

/-- The literal of an escape character other than the quote is balanced. -/
theorem insideAfter_escapeLiteral (d : Dialect) {c : Char} (h : c ≠ '\'') :
    Text.insideAfter false (d.escapeLiteral c).toList = false := by
  obtain ⟨s, hs⟩ := exists_escapeLiteral d h
  rw [hs, Text.insideAfter_encode]

/-- An escape character other than the quote stands inside a literal. -/
theorem signs_escapeLiteral (d : Dialect) {c : Char} (h : c ≠ '\'') :
    Text.signs false (d.escapeLiteral c).toList = [] := by
  obtain ⟨s, hs⟩ := exists_escapeLiteral d h
  rw [hs, Text.signs_encode]

theorem Leaf.closed_template (d : Dialect) {l : Leaf} (h : l.Balanced) :
    Closed (l.template d) := by
  cases l with
  | text s => exact Closed.ofChars (Text.balanced_iff.1 h)
  | table name =>
      refine Closed.ofChars ?_
      have hname := Text.balanced_iff.1 h
      simp [Text.toggle, hname]
  | fragment sql params =>
      exact closed_ofSegments (Fragment.sound_scan (Text.balanced_iff.1 h)) params
  | value v => exact Closed.value v
  | escape c => exact Closed.ofChars (insideAfter_escapeLiteral d h)

/-- The writer's own words have no quotes. -/
theorem closed_own {s : String} (h : s.toList.all isOwnChar = true) :
    Closed (Template.ofChars s.toList) :=
  Closed.ofChars (Text.insideAfter_of_not_mem (not_mem_of_isOwnChar h rfl) false)

namespace Template

theorem Closed.under {head t : Template} (hhead : Closed head) (ht : Closed t) :
    Closed (under head t) := by
  rw [SelectSql.under]
  split
  · exact Closed.nil
  · exact hhead.append ht

theorem Closed.spaced {s t : Template} (hs : Closed s) (ht : Closed t) :
    Closed (spaced (.char ' ') s t) := by
  have hspace : Closed [.char ' '] := rfl
  rw [SelectSql.spaced]
  split
  · exact ht
  · split
    · exact hs
    · exact hs.append (hspace.append ht)

/-! ### What is found in a template -/

/-- What is found in a template, in the order of its text: nothing in plain characters, of two
templates what is found in each, and as much when it is trimmed or collapsed. -/
structure Collects {α : Type} (P : Template → List α → Prop) : Prop where
  eq_nil {xs : List α} : P [] xs → xs = []
  plain {cs : List Char} : '\'' ∉ cs → '\x7b' ∉ cs → '\x7d' ∉ cs → P (ofChars cs) []
  append {s t : Template} {xs ys : List α} : P s xs → P t ys → P (s ++ t) (xs ++ ys)
  trim {t : Template} {xs : List α} : P t xs → P t.trim xs
  collapse {t : Template} {xs : List α} : P t xs → P t.collapse xs

namespace Collects

variable {α : Type} {P : Template → List α → Prop} (hP : Collects P) {s t : Template}
  {xs ys : List α}
include hP

theorem nil : P [] [] :=
  hP.plain (show '\'' ∉ [] by simp) (by simp) (by simp)

/-- Nothing is found in a word of the writer. -/
theorem own {head : String} (h : head.toList.all isOwnChar = true) :
    P (ofChars head.toList) [] :=
  hP.plain (not_mem_of_isOwnChar h rfl) (not_mem_of_isOwnChar h rfl) (not_mem_of_isOwnChar h rfl)

/-- A heading adds nothing. -/
theorem under {head : Template} (hhead : P head []) (ht : P t xs) : P (under head t) xs := by
  rw [SelectSql.under]
  split
  · next hnil =>
    rw [List.isEmpty_iff.1 hnil] at ht
    rw [hP.eq_nil ht]
    exact hP.nil
  · exact hP.append hhead ht

/-- Putting clauses together adds nothing. -/
theorem spaced (hs : P s xs) (ht : P t ys) : P (spaced (.char ' ') s t) (xs ++ ys) := by
  have hspace : P [.char ' '] [] := hP.plain (show '\'' ∉ [' '] by decide) (by decide) (by decide)
  rw [SelectSql.spaced]
  split
  · next hnil =>
    rw [List.isEmpty_iff.1 hnil] at hs
    rw [hP.eq_nil hs]
    exact ht
  · split
    · next hnil =>
      rw [List.isEmpty_iff.1 hnil] at ht
      rw [hP.eq_nil ht, List.append_nil]
      exact hs
    · exact hP.append hs (hP.append hspace ht)

/-- **What is found in the template of a tree is what is found in its leaves**, in their
order. -/
theorem doc_template (d : Dialect) {a : Doc} {f : Leaf → List α}
    (h : ∀ l ∈ a.leaves, P (l.template d) (f l)) : P (a.template d) (a.leaves.flatMap f) := by
  induction a with
  | own s plain => exact hP.own plain
  | leaf l =>
      rw [Doc.leaves, List.flatMap_singleton]
      exact h l List.mem_cons_self
  | append a b iha ihb =>
      obtain ⟨ha, hb⟩ := List.forall_mem_append.1 h
      rw [Doc.leaves, List.flatMap_append]
      exact hP.append (iha ha) (ihb hb)
  | parens a ih =>
      have hopen : P (ofChars ['(']) [] := hP.plain (by decide) (by decide) (by decide)
      have hclose : P (ofChars [')']) [] := hP.plain (by decide) (by decide) (by decide)
      have hall := hP.append hopen (hP.append (ih h) hclose)
      rwa [List.nil_append, List.append_nil] at hall
  | collapsed a ih => exact hP.collapse (ih h)
  | headed head plain a ih => exact hP.under (hP.own plain) (ih h)
  | clause a b iha ihb =>
      obtain ⟨ha, hb⟩ := List.forall_mem_append.1 h
      rw [Doc.leaves, List.flatMap_append]
      exact hP.spaced (hP.trim (iha ha)) (ihb hb)

end Collects

theorem collects_values : Collects fun t vs => values t = vs where
  eq_nil h := h.symm
  plain _ _ _ := values_ofChars _
  append hs ht := by rw [values_append, hs, ht]
  trim h := by rw [values_trim, h]
  collapse h := by rw [values_collapse, h]

/-- A heading adds no values. -/
theorem values_under (head : List Char) (t : Template) :
    values (under (ofChars head) t) = values t :=
  collects_values.under (values_ofChars head) rfl

/-- Putting clauses together adds no values. -/
theorem values_spaced (s t : Template) :
    values (spaced (.char ' ') s.trim t) = values s ++ values t :=
  collects_values.spaced (values_trim s) rfl

end Template

namespace Doc

theorem values_leaf (l : Leaf) : (leaf l).values = l.written :=
  List.append_nil l.written

@[simp] theorem values_append (a b : Doc) : (Doc.append a b).values = a.values ++ b.values :=
  List.flatMap_append

@[simp] theorem values_clause (a b : Doc) : (Doc.clause a b).values = a.values ++ b.values :=
  List.flatMap_append

/-- A tree with balanced leaves has a closed template. -/
theorem closed_template (d : Dialect) {a : Doc} (h : ∀ l ∈ a.leaves, l.Balanced) :
    Closed (a.template d) := by
  induction a with
  | own s plain => exact closed_own plain
  | leaf l => exact Leaf.closed_template d (h l List.mem_cons_self)
  | append a b iha ihb =>
      obtain ⟨ha, hb⟩ := List.forall_mem_append.1 h
      exact (iha ha).append (ihb hb)
  | parens a ih =>
      have hopen : Closed [.char '('] := rfl
      have hclose : Closed [.char ')'] := rfl
      exact hopen.append ((ih h).append hclose)
  | collapsed a ih => exact (ih h).collapse
  | headed head plain a ih =>
      rw [template_headed]
      exact (closed_own plain).under (ih h)
  | clause a b iha ihb =>
      obtain ⟨ha, hb⟩ := List.forall_mem_append.1 h
      rw [template_clause]
      exact (iha ha).trim.spaced (ihb hb)

/-- The values of the template are those that are written. -/
theorem values_template (d : Dialect) (a : Doc) : Template.values (a.template d) = a.values :=
  Template.collects_values.doc_template d fun l _ => Leaf.values_template d l

/-! ## The readings agree -/

theorem isEmpty_render (r : Rendering) (k : Nat) (t : Template) :
    (render r k t).isEmpty = t.isEmpty := by
  rw [Bool.eq_iff_iff, List.isEmpty_iff, List.isEmpty_iff, render_eq_nil]

/-- A heading is put in front of a template as in front of its text. -/
theorem render_under (r : Rendering) (k : Nat) (head : String) (t : Template) :
    under head.toList (render r k t) = render r k (under (Template.ofChars head.toList) t) := by
  rw [under, under, isEmpty_render]
  split <;> simp

/-- A clause is put in front of a template as in front of its text. -/
theorem render_spaced (r : Rendering) (k : Nat) (s t : Template) :
    spaced ' ' (Text.trimChars (render r k s)) (render r (k + (Template.values s).length) t) =
      render r k (spaced (.char ' ') s.trim t) := by
  rw [trimChars_render, spaced, spaced, isEmpty_render, isEmpty_render]
  split
  · next hnil =>
    -- an empty clause has no values, so what follows is numbered as before
    have hvalues : Template.values s = [] := by
      rw [← values_trim, List.isEmpty_iff.1 hnil, values_nil]
    rw [hvalues, List.length_nil, Nat.add_zero]
  · split
    · rfl
    · simp [render]

/-- **The text of a tree is its template, rendered**, if its leaves are balanced. In
particular both modes collapse and trim alike. -/
theorem text_eq_render {a : Doc} (h : ∀ l ∈ a.leaves, l.Balanced) (r : Rendering) (k : Nat) :
    a.text r k = render r k (a.template r.dialect) := by
  induction a generalizing k with
  | own s plain => exact (render_ofChars r k s.toList).symm
  | leaf l => rfl
  | append a b iha ihb =>
      obtain ⟨ha, hb⟩ := List.forall_mem_append.1 h
      rw [append_eq, text_append, template_append, render_append, values_template, iha ha, ihb hb]
  | parens a ih => rw [text_parens, template_parens, ih h]; simp [render]
  | collapsed a ih =>
      have hclosed : Closed (a.template r.dialect) := closed_template r.dialect h
      rw [text_collapsed, template_collapsed, ih h, collapseChars_render hclosed]
  | headed head plain a ih => rw [text_headed, template_headed, ih h, render_under]
  | clause a b iha ihb =>
      obtain ⟨ha, hb⟩ := List.forall_mem_append.1 h
      rw [text_clause, template_clause, iha ha, ihb hb, ← values_template r.dialect a,
        render_spaced]

/-! ## The signs of a text -/

section Signs

variable {a b : Doc} (r : Rendering) (k : Nat)

/-- The text of a tree with balanced leaves is balanced. -/
theorem insideAfter_text (h : ∀ l ∈ a.leaves, l.Balanced) :
    Text.insideAfter false (a.text r k) = false := by
  rw [text_eq_render h]
  exact (closed_template r.dialect h).render r k

theorem signs_text_append (h : ∀ l ∈ a.leaves, l.Balanced) :
    Text.signs false ((append a b).text r k) =
      Text.signs false (a.text r k) ++ Text.signs false (b.text r (k + a.values.length)) := by
  rw [append_eq, text_append, Text.signs_append, insideAfter_text r k h]

theorem signs_text_parens (h : ∀ l ∈ a.leaves, l.Balanced) :
    Text.signs false ((parens a).text r k) = '(' :: (Text.signs false (a.text r k) ++ [')']) := by
  have hopen (cs : List Char) : Text.signs false ('(' :: cs) = '(' :: Text.signs false cs := rfl
  rw [text_parens, hopen, Text.signs_append, insideAfter_text r k h]
  rfl

theorem signs_text_collapsed (h : ∀ l ∈ a.leaves, l.Balanced) :
    Text.signs false ((collapsed a).text r k) = Text.signs false (a.text r k) := by
  rw [text_collapsed, Fragment.signs_collapseChars (insideAfter_text r k h)]

theorem signs_text_headed (head : String) (plain : head.toList.all isOwnChar = true) :
    Text.signs false ((headed head plain a).text r k) =
      if (a.text r k).isEmpty then []
      else Text.signs false head.toList ++ Text.signs false (a.text r k) := by
  have hquote : '\'' ∉ head.toList := not_mem_of_isOwnChar plain rfl
  rw [text_headed, under]
  split
  · rfl
  · rw [Text.signs_append, Text.insideAfter_of_not_mem hquote]

theorem signs_text_clause (h : ∀ l ∈ a.leaves, l.Balanced) :
    Text.signs false ((clause a b).text r k) =
      Text.signs false (a.text r k) ++ Text.signs false (b.text r (k + a.values.length)) := by
  obtain ⟨hsigns, hside⟩ := Text.signs_trimChars (a.text r k)
  rw [insideAfter_text r k h] at hside
  have hspace (cs : List Char) : Text.signs false (' ' :: cs) = Text.signs false cs := rfl
  rw [text_clause, spaced, ← hsigns]
  split
  · next hnil => rw [List.isEmpty_iff.1 hnil, Text.signs_nil, List.nil_append]
  · split
    · next hnil => rw [List.isEmpty_iff.1 hnil, Text.signs_nil, List.append_nil]
    · rw [Text.signs_append, hside, hspace]

end Signs

/-! ## Words, names and values -/

@[simp] theorem text_name (r : Rendering) (k : Nat) (s : String) :
    (name s).text r k = s.toList :=
  Template.render_ofChars r k s.toList

@[simp] theorem text_value (r : Rendering) (k : Nat) (v : Value) :
    (leaf (.value v)).text r k = r.slot k v :=
  List.append_nil (r.slot k v)

@[simp] theorem text_escape (r : Rendering) (k : Nat) (c : Char) :
    (leaf (.escape c)).text r k = (r.dialect.escapeLiteral c).toList :=
  Template.render_ofChars r k _

@[simp] theorem text_table (r : Rendering) (k : Nat) (s : String) :
    (leaf (.table s)).text r k = '\x7b' :: (s.toList ++ ['\x7d']) :=
  Template.render_ofChars r k _

@[simp] theorem values_word (s : String) (h : s.toList.all isOwnChar = true) :
    (word s h).values = [] := rfl

@[simp] theorem values_own (s : String) (h : s.toList.all isOwnChar = true) :
    (own s h).values = [] := rfl

@[simp] theorem values_name (s : String) : (name s).values = [] := rfl

@[simp] theorem values_value (v : Value) : (leaf (.value v)).values = [v] := rfl

@[simp] theorem values_table (s : String) : (leaf (.table s)).values = [] := rfl

@[simp] theorem values_concat (a b : Doc) : (a ++ b).values = a.values ++ b.values :=
  values_append a b

@[simp] theorem values_parens (a : Doc) : (parens a).values = a.values := rfl

@[simp] theorem leaves_word (s : String) (h : s.toList.all isOwnChar = true) :
    (word s h).leaves = [] := rfl

@[simp] theorem leaves_name (s : String) : (name s).leaves = [.text s] := rfl

@[simp] theorem leaves_append (a b : Doc) : (a ++ b).leaves = a.leaves ++ b.leaves := rfl

@[simp] theorem leaves_parens (a : Doc) : (parens a).leaves = a.leaves := rfl

/-! ## Lists of trees -/

/-- The texts of trees, one behind the other. -/
def texts (r : Rendering) : Nat → List Doc → List (List Char)
  | _, [] => []
  | k, a :: rest => a.text r k :: texts r (k + a.values.length) rest

/-- The values of trees are those of their leaves. -/
theorem flatMap_values (as : List Doc) :
    as.flatMap values = (as.flatMap leaves).flatMap Leaf.written :=
  List.flatMap_assoc.symm

@[simp] theorem leaves_sep (s : String) (h : s.toList.all isOwnChar = true) (as : List Doc) :
    (sep (word s h) as).leaves = as.flatMap leaves := by
  induction as with
  | nil => rfl
  | cons a as ih =>
      cases as with
      | nil => simp [sep]
      | cons b as => rw [sep, leaves_append, leaves_append, ih]; rfl

@[simp] theorem values_sep (s : String) (h : s.toList.all isOwnChar = true) (as : List Doc) :
    (sep (word s h) as).values = as.flatMap values := by
  rw [values, leaves_sep, flatMap_values]

@[simp] theorem text_sep (r : Rendering) (k : Nat) (s : String)
    (h : s.toList.all isOwnChar = true) (as : List Doc) :
    (sep (word s h) as).text r k = s.toList.intercalate (texts r k as) := by
  induction as generalizing k with
  | nil => exact text_word r k _ _
  | cons a as ih =>
      cases as with
      | nil => simp [sep, texts]
      | cons b as =>
          rw [sep, text_append, text_append, ih]
          simp [texts, List.intercalate_cons_cons]

/-! ## Clauses -/

theorem text_clauses_nil (r : Rendering) (k : Nat) : (clauses []).text r k = [] := rfl

theorem text_clauses_cons (r : Rendering) (k : Nat) (a : Doc) (as : List Doc) :
    (clauses (a :: as)).text r k =
      spaced ' ' (Text.trimChars (a.text r k)) ((clauses as).text r (k + a.values.length)) := rfl

@[simp] theorem leaves_clauses (as : List Doc) :
    (clauses as).leaves = as.flatMap leaves := by
  induction as with
  | nil => rfl
  | cons a as ih => rw [clauses, leaves, ih, List.flatMap_cons]

@[simp] theorem values_clauses (as : List Doc) :
    (clauses as).values = as.flatMap values := by
  rw [values, leaves_clauses, flatMap_values]

@[simp] theorem values_headed (head : String) (h : head.toList.all isOwnChar = true)
    (a : Doc) : (headed head h a).values = a.values := rfl

@[simp] theorem values_collapsed (a : Doc) : (collapsed a).values = a.values := rfl

end Doc

end SelectSql
