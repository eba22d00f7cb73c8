import SelectSql.Proofs.Doc
import SelectSql.Proofs.Tokens

/-!
# SelectSql.Proofs.Doc.Nested

The parentheses of a statement are well nested if those of the caller's texts are: the
writer opens and closes them in pairs, values bring none from outside their literals,
and neither collapsing nor trimming takes any away.

Main statement: `Doc.nested_text`.
-/

namespace SelectSql

/-! ## What is asked of the caller -/

/-- A text without quotes, without the words that combine conditions, and with
parentheses that are well nested. -/
structure PlainText (s : String) : Prop where
  quotes : '\'' ∉ s.toList
  words : ∀ t ∈ lex false s.toList, ∀ w ∈ ["AND", "OR", "NOT"], t.isKeyword w = false
  parens : Text.Nested s.toList

instance (s : String) : Decidable (PlainText s) :=
  decidable_of_iff ('\'' ∉ s.toList ∧
      (∀ t ∈ lex false s.toList, ∀ w ∈ ["AND", "OR", "NOT"], t.isKeyword w = false) ∧
      Text.Nested s.toList)
    ⟨fun h => ⟨h.1, h.2.1, h.2.2⟩, fun h => ⟨h.1, h.2, h.3⟩⟩

/-- The texts of a leaf are plain, and its escape character is no quote. -/
def Leaf.Plain : Leaf → Prop
  | .text s => PlainText s
  | .table name => PlainText name
  | .fragment sql _ => PlainText sql
  | .value _ => True
  | .escape c => c ≠ '\''

instance : DecidablePred Leaf.Plain
  | .text s => inferInstanceAs (Decidable (PlainText s))
  | .table name => inferInstanceAs (Decidable (PlainText name))
  | .fragment sql _ => inferInstanceAs (Decidable (PlainText sql))
  | .value _ => inferInstanceAs (Decidable True)
  | .escape c => inferInstanceAs (Decidable (c ≠ '\''))

/-- A text without quotes, without AND and OR, and with parentheses that are well nested. A NOT
may stand in it. -/
structure UncutText (s : String) : Prop where
  quotes : '\'' ∉ s.toList
  words : ∀ t ∈ lex false s.toList, t.isKeyword "AND" = false ∧ t.isKeyword "OR" = false
  parens : Text.Nested s.toList

instance (s : String) : Decidable (UncutText s) :=
  decidable_of_iff ('\'' ∉ s.toList ∧
      (∀ t ∈ lex false s.toList, t.isKeyword "AND" = false ∧ t.isKeyword "OR" = false) ∧
      Text.Nested s.toList)
    ⟨fun h => ⟨h.1, h.2.1, h.2.2⟩, fun h => ⟨h.1, h.2, h.3⟩⟩

/-- The texts of a leaf are uncut, and its escape character is no quote. -/
def Leaf.Uncut : Leaf → Prop
  | .text s => UncutText s
  | .table name => UncutText name
  | .fragment sql _ => UncutText sql
  | .value _ => True
  | .escape c => c ≠ '\''

theorem PlainText.uncut {s : String} (h : PlainText s) : UncutText s where
  quotes := h.quotes
  words t ht := ⟨h.words t ht _ (by simp), h.words t ht _ (by simp)⟩
  parens := h.parens

theorem Leaf.Plain.uncut {l : Leaf} (h : l.Plain) : l.Uncut := by
  cases l with
  | text s => exact PlainText.uncut h
  | table name => exact PlainText.uncut h
  | fragment sql params => exact PlainText.uncut h
  | value v => trivial
  | escape c => exact h

theorem UncutText.balanced {s : String} (h : UncutText s) : Text.Balanced s.toList :=
  Text.balanced_of_not_mem h.quotes

theorem Leaf.Uncut.balanced {l : Leaf} (h : l.Uncut) : l.Balanced := by
  cases l with
  | text s => exact UncutText.balanced h
  | table name => exact UncutText.balanced h
  | fragment sql params => exact UncutText.balanced h
  | value v => trivial
  | escape c => exact h

/-! ## Parentheses of statements -/

open Text (Nested signs)

theorem ne_paren_of_mem_slotChars : ∀ c ∈ slotChars, c ≠ '(' ∧ c ≠ ')' := by
  decide

theorem Rendering.nested_slot (r : Rendering) (k : Nat) (v : Value) :
    Nested (signs false (r.slot k v)) :=
  Text.nested_of_not_mem fun c hc => ne_paren_of_mem_slotChars c (r.signs_slot k v c hc)

theorem UncutText.nested {s : String} (h : UncutText s) : Nested (signs false s.toList) := by
  rw [Nested, Text.depthAfter_signs h.quotes]
  exact h.parens

theorem nested_of_isOwnChar {cs : List Char} (h : cs.all isOwnChar = true) :
    Nested (signs false cs) := by
  refine Text.nested_of_not_mem fun c hc => ?_
  have hmem := Text.mem_of_mem_signs hc
  constructor
  · rintro rfl
    exact not_mem_of_isOwnChar h rfl hmem
  · rintro rfl
    exact not_mem_of_isOwnChar h rfl hmem

/-- Filling markers keeps the parentheses of a fragment. -/
theorem depthAfter_ofSegments {ss : List Segment} (h : ∀ s ∈ ss, s.Sound) (r : Rendering)
    (k n : Nat) (vs : List Value) :
    Text.depthAfter n (signs false (Template.render r k (Template.ofSegments ss vs))) =
      Text.depthAfter n (signs false (ss.flatMap Segment.chars)) := by
  fun_induction Template.ofSegments ss vs generalizing k n with
  | case1 vs => rfl
  | case2 ss v vs ih =>
      have hslot := (r.nested_slot k v).depthAfter n
      rw [Template.render, Text.signs_append, r.insideAfter_slot, Text.depthAfter_append, hslot,
        Option.bind_some, ih fun t ht => h t (by simp [ht])]
      rfl
  | case3 s ss vs hplain ih =>
      have hs := Fragment.insideAfter_chars (h s (by simp))
      rw [Template.render_append, Template.render_ofChars, List.flatMap_cons, Text.signs_append,
        Text.signs_append, hs, Text.depthAfter_append, Text.depthAfter_append]
      exact congrArg _ (funext fun m => ih (fun t ht => h t (by simp [ht])) _ m)

theorem Leaf.nested_template {l : Leaf} (h : l.Uncut) (r : Rendering) (k : Nat) :
    Nested (signs false (Template.render r k (l.template r.dialect))) := by
  cases l with
  | text s =>
      rw [Leaf.template, Template.render_ofChars]
      exact UncutText.nested h
  | table name =>
      have hname : Text.insideAfter false name.toList = false :=
        Text.balanced_iff.1 (UncutText.balanced h)
      have hopen (cs : List Char) : signs false ('\x7b' :: cs) = '\x7b' :: signs false cs := rfl
      rw [Leaf.template, Template.render_ofChars, hopen, Text.signs_append, hname]
      exact (UncutText.nested h).append rfl
  | fragment sql params =>
      have hsound := Fragment.sound_scan (Text.balanced_iff.1 (UncutText.balanced h))
      rw [Leaf.template, Nested, depthAfter_ofSegments hsound, Fragment.flatMap_chars_scan]
      exact UncutText.nested h
  | value v =>
      rw [Leaf.template, Template.render, Template.render_nil, List.append_nil]
      exact r.nested_slot k v
  | escape c =>
      rw [Leaf.template, Template.render_ofChars, signs_escapeLiteral r.dialect h]
      rfl

/-- **The parentheses of a statement are well nested** if those of its leaves are. -/
theorem Doc.nested_text {a : Doc} (h : ∀ l ∈ a.leaves, l.Uncut) (r : Rendering) (k : Nat) :
    Nested (signs false (a.text r k)) := by
  induction a generalizing k with
  | own s plain =>
      rw [Doc.text]
      exact nested_of_isOwnChar plain
  | leaf l =>
      rw [Doc.text]
      exact Leaf.nested_template (h l (by simp [Doc.leaves])) r k
  | append a b iha ihb =>
      obtain ⟨ha, hb⟩ := List.forall_mem_append.1 h
      rw [Doc.signs_text_append r k fun l hl => (ha l hl).balanced]
      exact (iha ha k).append (ihb hb _)
  | parens a ih =>
      have ha : ∀ l ∈ a.leaves, l.Uncut := h
      rw [Doc.signs_text_parens r k fun l hl => (ha l hl).balanced]
      exact (ih ha k).parens
  | collapsed a ih =>
      have ha : ∀ l ∈ a.leaves, l.Uncut := h
      rw [Doc.signs_text_collapsed r k fun l hl => (ha l hl).balanced]
      exact ih ha k
  | headed head plain a ih =>
      rw [Doc.signs_text_headed]
      split
      · rfl
      · exact (nested_of_isOwnChar plain).append (ih h k)
  | clause a b iha ihb =>
      obtain ⟨ha, hb⟩ := List.forall_mem_append.1 h
      rw [Doc.signs_text_clause r k fun l hl => (ha l hl).balanced]
      exact (iha ha k).append (ihb hb _)

end SelectSql
