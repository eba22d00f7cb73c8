import SelectSql.Proofs.Doc.Nested
import SelectSql.Proofs.Doc.Statement
import SelectSql.Proofs.Reading.Phrases

/-!
# SelectSql.Proofs.Conditions.Atoms

The text of an atomic predicate is an atom of the condition it stands in.

Design points:

* **An atomic predicate is a row of phrases** with spaces between them: names, values,
  calls, and words of the writer.
* **One phrase of it is firm**, which is the operator. So the text is more than a group,
  also where a name is nothing but parentheses.
* **A nested query is one group** of the text around it, because its parentheses are
  balanced.

Main statement: `Predicate.firm_doc`.
-/

namespace SelectSql

open Text (Nested signs)

/-- A tree whose text is a phrase behind any number of values. -/
def Doc.IsPhrase (r : Rendering) (a : Doc) : Prop :=
  ∀ k, Phrase (a.text r k)

/-- A tree whose text is firm behind any number of values. -/
def Doc.IsFirm (r : Rendering) (a : Doc) : Prop :=
  ∀ k, Firm (a.text r k)

theorem Doc.IsFirm.isPhrase {r : Rendering} {a : Doc} (h : a.IsFirm r) : a.IsPhrase r :=
  fun k => (h k).phrase

/-! ## Names, values and calls -/

/-- A text that has neither a D nor an O outside its literals has neither AND nor OR. -/
theorem isKeyword_of_signs {cs : List Char}
    (h : ∀ c ∈ signs false cs, c.toUpper ≠ 'D' ∧ c.toUpper ≠ 'O') :
    ∀ t ∈ lex false cs, t.isKeyword "AND" = false ∧ t.isKeyword "OR" = false := by
  intro t ht
  cases t with
  | word w =>
      have hletter : ∀ d, (∀ c ∈ w, c.toUpper ≠ d) → ∀ s : String, d ∈ s.toList →
          Token.isKeyword s (.word w) = false := by
        intro d hd s hs
        rw [Token.isKeyword, decide_eq_false_iff_not]
        intro heq
        rw [← heq] at hs
        obtain ⟨c, hc, hcd⟩ := List.mem_map.1 hs
        exact hd c hc hcd
      exact ⟨hletter 'D' (fun c hc => (h c (mem_signs_of_word ht hc)).1) _ (by decide),
        hletter 'O' (fun c hc => (h c (mem_signs_of_word ht hc)).2) _ (by decide)⟩
  | quoted c => exact ⟨rfl, rfl⟩
  | sign c => exact ⟨rfl, rfl⟩

section Phrases

variable (r : Rendering)

theorem Doc.phrase_name {s : String} (h : UncutText s) : (Doc.name s).IsPhrase r := by
  intro k
  rw [Doc.text_name]
  exact Phrase.of_nested (Text.balanced_iff.1 h.balanced) h.nested
    h.words

theorem Value.phrase_doc (v : Value) : v.doc.IsPhrase r := by
  intro k
  rw [Value.doc, Doc.text_value]
  refine Phrase.of_nested (r.insideAfter_slot k v) (r.nested_slot k v)
    (isKeyword_of_signs fun c hc => ?_)
  -- NULL, true and false have neither letter
  have hall : ∀ c ∈ slotChars, c.toUpper ≠ 'D' ∧ c.toUpper ≠ 'O' := by decide
  exact hall c (r.signs_slot k v c hc)

theorem Doc.phrase_escape {c : Char} (h : c ≠ '\'') : (Doc.leaf (.escape c)).IsPhrase r := by
  intro k
  have hsigns := signs_escapeLiteral r.dialect h
  rw [Doc.text_escape]
  refine Phrase.of_nested (insideAfter_escapeLiteral r.dialect h) ?_
    (isKeyword_of_signs fun c hc => ?_)
  · rw [hsigns]
    rfl
  · rw [hsigns] at hc
    simp at hc

theorem Doc.firm_own {s : String} (h : Solid s.toList)
    (plain : s.toList.all isOwnChar = true) : (Doc.own s plain).IsFirm r := by
  intro k
  rw [Doc.text_own]
  exact h.firm

theorem Doc.phrase_own {s : String} (h : Solid s.toList)
    (plain : s.toList.all isOwnChar = true) : (Doc.own s plain).IsPhrase r :=
  (Doc.firm_own r h plain).isPhrase

/-- A tree in parentheses is a phrase, whatever stands in it. -/
theorem Doc.phrase_parens {a : Doc} (h : ∀ l ∈ a.leaves, l.Uncut) :
    (Doc.parens a).IsPhrase r := by
  intro k
  rw [Doc.text_parens]
  exact Phrase.nil.append_parens (Doc.insideAfter_text r k fun l hl => (h l hl).balanced)
    (Doc.nested_text h r k)

theorem Doc.phrase_call {function : String} (hf : Solid function.toList) {a : Doc}
    (h : ∀ l ∈ a.leaves, l.Uncut) (plain : function.toList.all isOwnChar = true) :
    (Doc.call function a plain).IsPhrase r := by
  intro k
  rw [Doc.text_call]
  exact hf.firm.phrase.append_parens (Doc.insideAfter_text r k fun l hl => (h l hl).balanced)
    (Doc.nested_text h r k)

end Phrases

/-! ## Rows of phrases -/

theorem Doc.mem_texts {r : Rendering} {k : Nat} {as : List Doc} {cs : List Char}
    (h : cs ∈ Doc.texts r k as) : ∃ a ∈ as, ∃ j, cs = a.text r j := by
  induction as generalizing k with
  | nil => simp [Doc.texts] at h
  | cons a as ih =>
      rcases List.mem_cons.1 h with rfl | h
      · exact ⟨a, by simp, k, rfl⟩
      · obtain ⟨b, hb, hj⟩ := ih h
        exact ⟨b, by simp [hb], hj⟩

theorem Doc.exists_mem_texts (r : Rendering) (k : Nat) {as : List Doc} {a : Doc} (h : a ∈ as) :
    ∃ j, a.text r j ∈ Doc.texts r k as := by
  induction as generalizing k with
  | nil => simp at h
  | cons b as ih =>
      rcases List.mem_cons.1 h with rfl | h
      · exact ⟨k, by simp [Doc.texts]⟩
      · obtain ⟨j, hj⟩ := ih (k + b.values.length) h
        exact ⟨j, by simp [Doc.texts, hj]⟩

/-- Phrases with spaces between them are firm if one of them is. -/
theorem Doc.firm_spaces {r : Rendering} {parts : List Doc} (h : ∀ a ∈ parts, a.IsPhrase r)
    (hfirm : ∃ a ∈ parts, a.IsFirm r) : (Doc.spaces parts).IsFirm r := by
  intro k
  rw [Doc.spaces, Doc.text_sep]
  refine Firm.intercalate (fun cs hcs => ?_) ?_
  · obtain ⟨a, ha, j, rfl⟩ := Doc.mem_texts hcs
    exact h a ha j
  · obtain ⟨a, ha, hfirm⟩ := hfirm
    obtain ⟨j, hj⟩ := Doc.exists_mem_texts r k ha
    exact ⟨_, hj, hfirm j⟩

theorem Operator.firm_doc (r : Rendering) (op : Operator) : op.doc.IsFirm r := by
  have h : Solid op.symbol.toList := by cases op <;> decide
  exact Doc.firm_own r h _

theorem Doc.phrase_nots (r : Rendering) (negated : Bool) :
    ∀ a ∈ Doc.nots negated, a.IsPhrase r := by
  -- NOT is taken off in front of an atom, so it is not solid
  have h : Phrase "NOT".toList := Phrase.of_nested (by decide) (by decide) (by decide)
  cases negated with
  | false => simp [Doc.nots]
  | true =>
      intro a ha k
      obtain rfl := List.mem_singleton.1 ha
      rwa [Doc.text_word]

/-! ## Patterns and comparisons of texts -/

theorem Doc.uncut_name {s : String} (h : UncutText s) : ∀ l ∈ (Doc.name s).leaves, l.Uncut := by
  intro l hl
  obtain rfl := List.mem_singleton.1 hl
  exact h

theorem Doc.uncut_value (v : Value) : ∀ l ∈ v.doc.leaves, l.Uncut := by
  intro l hl
  obtain rfl := List.mem_singleton.1 hl
  trivial

theorem Doc.phrase_cased {r : Rendering} {a : Doc} (h : a.IsPhrase r)
    (huncut : ∀ l ∈ a.leaves, l.Uncut) (caseSensitive : Bool) :
    (Doc.cased caseSensitive a).IsPhrase r := by
  have hlower : Solid "LOWER".toList := by decide
  cases caseSensitive with
  | true => exact h
  | false => exact Doc.phrase_call r hlower huncut _

theorem Doc.phrase_accented {r : Rendering} {a : Doc} (h : a.IsPhrase r)
    (huncut : ∀ l ∈ a.leaves, l.Uncut) (accentSensitive : Bool) :
    (Doc.accented accentSensitive a).IsPhrase r := by
  have hcall : Solid "unaccent".toList := by decide
  cases accentSensitive with
  | true => exact h
  | false => exact Doc.phrase_call r hcall huncut _

theorem Dialect.phrase_compareDoc (r : Rendering) (d : Dialect) {column : String}
    (h : UncutText column) (length : Nat) : (d.compareDoc column length).IsPhrase r := by
  have hcast : Solid "CAST".toList := by decide
  cases d with
  | sqlServer =>
      refine Doc.phrase_call r hcast (fun l hl => ?_) _
      have hl : l = .text column := by simpa [Doc.number, Doc.leaves] using hl
      subst hl
      exact h
  | _ => exact Doc.phrase_name r h

theorem Dialect.phrase_columnParts (r : Rendering) (d : Dialect) {column : String}
    (h : UncutText column) (o : LikeOptions) : ∀ a ∈ d.columnParts column o, a.IsPhrase r := by
  have hname : (Doc.name column).IsPhrase r := Doc.phrase_name r h
  have hcollate : Solid "COLLATE".toList := by decide
  have hcollation : Solid (Dialect.sqlServerCollation o).toList := by
    unfold Dialect.sqlServerCollation
    split <;> decide
  cases d with
  | generic | sqlite =>
      intro a ha
      obtain rfl := List.mem_singleton.1 ha
      exact Doc.phrase_cased hname (Doc.uncut_name h) _
  | mySql =>
      intro a ha
      obtain rfl := List.mem_singleton.1 ha
      exact hname
  | postgres =>
      intro a ha
      obtain rfl := List.mem_singleton.1 ha
      exact Doc.phrase_accented hname (Doc.uncut_name h) _
  | sqlServer =>
      simp only [Dialect.columnParts, List.forall_mem_cons]
      exact ⟨hname, Doc.phrase_own r hcollate _, Doc.phrase_own r hcollation _, by simp⟩

theorem Dialect.firm_patternParts (r : Rendering) (d : Dialect) (pattern : Value)
    (o : LikeOptions) : (∀ a ∈ d.patternParts pattern o, a.IsPhrase r) ∧
      ∃ a ∈ d.patternParts pattern o, a.IsFirm r := by
  have hvalue : pattern.doc.IsPhrase r := Value.phrase_doc r pattern
  have hcollate : Solid "COLLATE".toList := by decide
  have hcollation : Solid (Dialect.mySqlCollation o).toList := by
    unfold Dialect.mySqlCollation
    split
    · decide
    · split <;> decide
  have hlike : (Doc.word "LIKE").IsFirm r := Doc.firm_own r (by decide) _
  have hilike : (Doc.word "ILIKE").IsFirm r := Doc.firm_own r (by decide) _
  cases d with
  | generic | sqlite =>
      simp only [Dialect.patternParts, List.forall_mem_cons, List.exists_mem_cons_iff]
      exact ⟨⟨hlike.isPhrase, Doc.phrase_cased hvalue (Doc.uncut_value pattern) _, by simp⟩,
        .inl hlike⟩
  | mySql =>
      simp only [Dialect.patternParts, List.forall_mem_cons, List.exists_mem_cons_iff]
      exact ⟨⟨hlike.isPhrase, hvalue, Doc.phrase_own r hcollate _,
        Doc.phrase_own r hcollation _, by simp⟩, .inl hlike⟩
  | postgres =>
      have hop : (if o.caseSensitive then Doc.word "LIKE" else Doc.word "ILIKE").IsFirm r := by
        split
        · exact hlike
        · exact hilike
      simp only [Dialect.patternParts, List.forall_mem_cons, List.exists_mem_cons_iff]
      exact ⟨⟨hop.isPhrase, Doc.phrase_accented hvalue (Doc.uncut_value pattern) _, by simp⟩,
        .inl hop⟩
  | sqlServer =>
      simp only [Dialect.patternParts, List.forall_mem_cons, List.exists_mem_cons_iff]
      exact ⟨⟨hlike.isPhrase, hvalue, by simp⟩, .inl hlike⟩

theorem Dialect.firm_likeParts (r : Rendering) (d : Dialect) {column : String}
    (h : UncutText column) (pattern : Value) {o : LikeOptions} (hescape : o.escape ≠ '\'')
    (negated : Bool) : (Doc.spaces (d.likeParts column pattern o negated)).IsFirm r := by
  obtain ⟨hpattern, op, hmem, hop⟩ := d.firm_patternParts r pattern o
  have hword : Solid "ESCAPE".toList := by decide
  refine Doc.firm_spaces ?_ ⟨op, by simp [Dialect.likeParts, hmem], hop⟩
  simp only [Dialect.likeParts, List.forall_mem_append, List.forall_mem_cons]
  exact ⟨d.phrase_columnParts r h o, Doc.phrase_nots r negated, hpattern,
    Doc.phrase_own r hword _, Doc.phrase_escape r hescape, by simp⟩

/-! ## Atomic predicates -/

section Tests

variable {r : Rendering} {a op b : Doc}

/-- A comparison is firm if its operator is. -/
theorem Doc.firm_comparison (ha : a.IsPhrase r) (hop : op.IsFirm r) (hb : b.IsPhrase r)
    (negated : Bool) : (Doc.spaces (Doc.nots negated ++ [a, op, b])).IsFirm r := by
  refine Doc.firm_spaces ?_ ⟨op, by simp, hop⟩
  simp only [List.forall_mem_append, List.forall_mem_cons]
  exact ⟨Doc.phrase_nots r negated, ha, hop.isPhrase, hb, by simp⟩

theorem Doc.firm_nullCheck (ha : a.IsPhrase r) (negated : Bool) :
    (Doc.spaces ([a, Doc.word "IS"] ++ (Doc.nots negated ++ [Doc.word "NULL"]))).IsFirm r := by
  have his : (Doc.word "IS").IsFirm r := Doc.firm_own r (by decide) _
  have hnull : (Doc.word "NULL").IsPhrase r := Doc.phrase_own r (by decide) _
  refine Doc.firm_spaces ?_ ⟨Doc.word "IS", by simp, his⟩
  simp only [List.forall_mem_append, List.forall_mem_cons]
  exact ⟨⟨ha, his.isPhrase, by simp⟩, Doc.phrase_nots r negated, hnull, by simp⟩

/-- A membership test is firm, whatever stands in its parentheses. -/
theorem Doc.firm_membership (ha : a.IsPhrase r) (hset : ∀ l ∈ b.leaves, l.Uncut)
    (negated : Bool) :
    (Doc.spaces ([a] ++ (Doc.nots negated ++ [Doc.word "IN", .parens b]))).IsFirm r := by
  have hin : (Doc.word "IN").IsFirm r := Doc.firm_own r (by decide) _
  refine Doc.firm_spaces ?_ ⟨Doc.word "IN", by simp, hin⟩
  simp only [List.forall_mem_append, List.forall_mem_cons]
  exact ⟨⟨ha, by simp⟩, Doc.phrase_nots r negated, hin.isPhrase, Doc.phrase_parens r hset,
    by simp⟩

end Tests

theorem Predicate.leaves_inSet {source : SetSource} (hne : source ≠ .values []) (column : String)
    (negated : Bool) :
    (Predicate.inSet column source negated).leaves = .text column :: source.leaves := by
  rw [Predicate.leaves]
  exact hne

theorem Predicate.doc_inSet {source : SetSource} (hne : source ≠ .values []) (d : Dialect)
    (column : String) (negated : Bool) : (Predicate.inSet column source negated).doc d =
      Doc.spaces ([Doc.name column] ++
        (Doc.nots negated ++ [Doc.word "IN", .parens (source.doc d)])) := by
  rw [Predicate.doc]
  exact hne

/-- **The text of an atomic predicate is an atom**: AND and OR do not cut it, and it is
more than a group. -/
theorem Predicate.firm_doc (r : Rendering) {p : Predicate} (hatomic : p.isAnyOf = false)
    (h : ∀ l ∈ p.leaves, l.Uncut) : (p.doc r.dialect).IsFirm r := by
  have hequal : (Doc.word "=").IsFirm r := Doc.firm_own r (by decide) _
  cases p with
  | comparison column op value negated =>
      have hcolumn : UncutText column := h (.text column) (by simp [Predicate.leaves])
      rw [Predicate.doc]
      exact Doc.firm_comparison (Doc.phrase_name r hcolumn) (op.firm_doc r)
        (Value.phrase_doc r value) negated
  | columnComparison column op other negated =>
      have hcolumn : UncutText column := h (.text column) (by simp [Predicate.leaves])
      have hother : UncutText other := h (.text other) (by simp [Predicate.leaves])
      rw [Predicate.doc]
      exact Doc.firm_comparison (Doc.phrase_name r hcolumn) (op.firm_doc r)
        (Doc.phrase_name r hother) negated
  | nullCheck column negated =>
      have hcolumn : UncutText column := h (.text column) (by simp [Predicate.leaves])
      rw [Predicate.doc]
      exact Doc.firm_nullCheck (Doc.phrase_name r hcolumn) negated
  | fullText column value negated =>
      have hcolumn : UncutText column := h (.text column) (by simp [Predicate.leaves])
      rw [Predicate.doc]
      exact Doc.firm_comparison (r.dialect.phrase_compareDoc r hcolumn value.length) hequal
        (Value.phrase_doc r _) negated
  | pattern column value negated options =>
      have hcolumn : UncutText column := h (.text column) (by simp [Predicate.leaves])
      have hescape : options.escape ≠ '\'' :=
        h (.escape options.escape) (by simp [Predicate.leaves])
      rw [Predicate.doc]
      exact r.dialect.firm_likeParts r hcolumn (.text value) hescape negated
  | inSet column source negated =>
      by_cases hempty : source = .values []
      · -- the empty set has no membership test: the text compares two constants
        subst hempty
        have hone : (Doc.word "1").IsPhrase r := Doc.phrase_own r (by decide) _
        have hzero : (Doc.word "0").IsPhrase r := Doc.phrase_own r (by decide) _
        rw [Predicate.doc]
        refine Doc.firm_comparison hone hequal ?_ false
        split
        · exact hone
        · exact hzero
      · rw [Predicate.leaves_inSet hempty, List.forall_mem_cons,
          ← SetSource.leaves_doc r.dialect] at h
        obtain ⟨hcolumn, hset⟩ := h
        rw [Predicate.doc_inSet hempty]
        exact Doc.firm_membership (Doc.phrase_name r hcolumn) hset negated
  | anyOf ps => simp [Predicate.isAnyOf] at hatomic

end SelectSql
