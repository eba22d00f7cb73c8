import SelectSql.Proofs.Modes
import SelectSql.Proofs.Scanning

/-!
# SelectSql.Proofs.Numbering

The bound text of a tree behind some number of values: the pieces of the text are the same
behind any number of them, and only the placeholders are numbered from there.

Design points:

* **Nothing is asked of the caller.** Placeholders have neither quotes nor blanks, so where
  literals begin and end does not depend on the numbers, even where the quotes of the caller
  are not balanced and a literal runs over several values (`Template.readsAlike`).
* **Collapsing keeps a text with places for values one** (`Template.exists_collapse`): the
  numbers are written behind the values before, whether blanks are collapsed or not.

Main statement: `Doc.exists_number`.
-/

namespace SelectSql

/-! ## Placeholders -/

/-- Pieces of text with the placeholders from number `k + 1` on between them. -/
def Dialect.number (d : Dialect) (pieces : List String) (k : Nat) : String :=
  weave pieces ((List.range' k (pieces.length - 1)).map fun i => d.placeholder (i + 1))

/-- Where all placeholders are the marker itself, the number of values before is not seen. -/
theorem Dialect.number_eq {d : Dialect} (hd : ∀ i, d.placeholder i = "?") (pieces : List String)
    (j k : Nat) : d.number pieces j = d.number pieces k := by
  simp [number, hd, List.map_const']

namespace Template

section Bound

variable {d : Dialect}

theorem ne_of_mem_placeholder {k : Nat} {v : Value} :
    ∀ c ∈ Rendering.slot ⟨d, .bound⟩ k v, c ≠ '\'' ∧ Text.isBlank c = false :=
  fun c hc => ne_of_mem_slotChars c ((SlotWord.placeholder d (k + 1)).chars c hc)

/-- A template behind any number of values. -/
theorem render_number (k : Nat) (t : Template) :
    String.ofList (render ⟨d, .bound⟩ k t) = d.number (pieces t) k := by
  rw [← toList_weave_pieces, String.ofList_toList, slots_bound, Dialect.number, length_pieces,
    Nat.add_sub_cancel]

/-! ## Literals -/

/-- A symbol that is no quote is written as a word without quotes. -/
theorem exists_word {x : Symbol} (hx : x ≠ .char '\'') (k : Nat) :
    ∃ word, word ≠ [] ∧ '\'' ∉ word ∧ ∀ t, render ⟨d, .bound⟩ k (x :: t) =
      word ++ render ⟨d, .bound⟩ (k + (values [x]).length) t := by
  cases x with
  | char c =>
      have hc : c ≠ '\'' := fun e => hx (by rw [e])
      exact ⟨[c], by simp, by simpa using hc.symm, fun _ => rfl⟩
  | value v =>
      have hquote : '\'' ∉ Rendering.slot ⟨d, .bound⟩ k v :=
        fun hq => (ne_of_mem_placeholder _ hq).1 rfl
      exact ⟨_, Rendering.slot_ne_nil _ k v, hquote, fun _ => rfl⟩

variable (d) in
/-- A template whose first symbol stands in a literal is read alike whatever the numbers are:
the literal never ends, or its closing quote is the same symbol. -/
def ReadsAlike (t : Template) : Prop :=
  (∀ k, Text.Quoted.body? (render ⟨d, .bound⟩ k t) = none) ∨
  ∃ inner rest, t = inner ++ .char '\'' :: rest ∧ ∀ k,
    (∃ s, render ⟨d, .bound⟩ k inner = Text.Quoted.double s) ∧
      (render ⟨d, .bound⟩ k rest).head? ≠ some '\''

/-- A symbol that is no quote belongs to the literal. -/
theorem ReadsAlike.cons {x : Symbol} (hx : x ≠ .char '\'') {t : Template} (h : ReadsAlike d t) :
    ReadsAlike d (x :: t) := by
  rcases h with hnone | ⟨inner, rest, rfl, h⟩
  · refine .inl fun k => ?_
    obtain ⟨word, -, hquote, hword⟩ := exists_word (d := d) hx k
    rw [hword, Fragment.body?_append hquote, hnone]
    rfl
  · refine .inr ⟨x :: inner, rest, rfl, fun k => ⟨?_, (h k).2⟩⟩
    obtain ⟨word, -, hquote, hword⟩ := exists_word (d := d) hx k
    obtain ⟨s, hs⟩ := (h (k + (values [x]).length)).1
    refine ⟨word ++ s, ?_⟩
    rw [hword, hs, Text.Quoted.double_append, Fragment.double_of_not_mem hquote]

/-- Two quotes are a quote of the literal. -/
theorem ReadsAlike.quotes {t : Template} (h : ReadsAlike d t) :
    ReadsAlike d (.char '\'' :: .char '\'' :: t) := by
  rcases h with hnone | ⟨inner, rest, rfl, h⟩
  · refine .inl fun k => ?_
    rw [render, render, Text.Quoted.body?, hnone]
    rfl
  · refine .inr ⟨.char '\'' :: .char '\'' :: inner, rest, rfl, fun k => ⟨?_, (h k).2⟩⟩
    obtain ⟨s, hs⟩ := (h k).1
    exact ⟨'\'' :: s, by rw [render, render, hs, Text.Quoted.double, if_pos rfl]⟩

/-- A quote closes the literal unless another one follows it. -/
theorem ReadsAlike.close {t : Template} (h : t.head? ≠ some (.char '\'')) :
    ReadsAlike d (.char '\'' :: t) := by
  refine .inr ⟨[], t, rfl, fun k => ⟨⟨[], rfl⟩, ?_⟩⟩
  cases t with
  | nil => simp
  | cons x t =>
      have hx : x ≠ .char '\'' := fun e => h (by rw [e]; rfl)
      obtain ⟨word, hne, hquote, hword⟩ := exists_word (d := d) hx k
      obtain ⟨c, cs, rfl⟩ := List.exists_cons_of_ne_nil hne
      rw [hword]
      intro hc
      obtain rfl : c = '\'' := by simpa using hc
      exact hquote (by simp)

/-- **Numbers do not decide where literals end.** -/
theorem readsAlike : (t : Template) → ReadsAlike d t
  | [] => .inl fun _ => rfl
  | [x] => by
      by_cases hx : x = .char '\''
      · subst hx
        exact .close (by simp)
      · exact .cons hx (.inl fun _ => rfl)
  | x :: y :: t => by
      by_cases hx : x = .char '\''
      · subst hx
        by_cases hy : y = .char '\''
        · subst hy
          exact (readsAlike t).quotes
        · exact .close (by simpa using hy)
      · exact .cons hx (readsAlike (y :: t))

/-! ## Collapsing -/

/-- What is left of a template when its blanks are collapsed is a template. -/
theorem exists_squeeze (afterSpace : Bool) (t : Template) :
    ∃ t', values t' = values t ∧ ∀ k,
      Fragment.squeeze afterSpace (Fragment.scan (render ⟨d, .bound⟩ k t)) =
        render ⟨d, .bound⟩ k t' := by
  match t with
  | [] => exact ⟨[], rfl, fun _ => by rw [render_nil, Fragment.scan_nil]; rfl⟩
  | .value v :: t =>
      obtain ⟨t', hvalues, ht⟩ := exists_squeeze false t
      refine ⟨.value v :: t', by simp [hvalues], fun k => ?_⟩
      rw [render, Fragment.squeeze_scan_solid (Rendering.slot_ne_nil _ k v) ne_of_mem_placeholder,
        ht, render]
  | .char c :: t =>
      by_cases hc : c = '\''
      · subst hc
        rcases readsAlike (d := d) t with hnone | ⟨inner, rest, rfl, h⟩
        · obtain ⟨t', hvalues, ht⟩ := exists_squeeze false t
          refine ⟨.char '\'' :: t', hvalues, fun k => ?_⟩
          rw [render, Fragment.squeeze_scan_lone (hnone k), ht, render]
        · -- the literal stays as it is, with the values that stand in it
          obtain ⟨t', hvalues, ht⟩ := exists_squeeze false rest
          refine ⟨.char '\'' :: (inner ++ .char '\'' :: t'), by simp [hvalues], fun k => ?_⟩
          obtain ⟨s, hs⟩ := (h k).1
          have hhead := (h (k + (values inner).length)).2
          have hliteral : render ⟨d, .bound⟩ k (.char '\'' :: (inner ++ .char '\'' :: rest)) =
              Text.Quoted.encode s ++ render ⟨d, .bound⟩ (k + (values inner).length) rest := by
            simp [render, hs, Text.Quoted.encode]
          rw [hliteral, Fragment.squeeze_scan_encode s hhead, ht]
          simp [render, hs, Text.Quoted.encode]
      · have hcons (k : Nat) := Fragment.squeeze_scan_cons hc afterSpace (render ⟨d, .bound⟩ k t)
        by_cases hb : Text.isBlank c = true
        · obtain ⟨t', hvalues, ht⟩ := exists_squeeze true t
          cases afterSpace with
          | true => exact ⟨t', hvalues, fun k => by rw [render, hcons, if_pos hb, if_pos rfl, ht]⟩
          | false =>
              refine ⟨.char ' ' :: t', hvalues, fun k => ?_⟩
              rw [render, hcons, if_pos hb, if_neg Bool.false_ne_true, ht, render]
        · obtain ⟨t', hvalues, ht⟩ := exists_squeeze false t
          exact ⟨.char c :: t', hvalues, fun k => by rw [render, hcons, if_neg hb, ht, render]⟩
termination_by t.length

theorem exists_collapse (t : Template) :
    ∃ t', values t' = values t ∧ ∀ k,
      Fragment.collapseChars (render ⟨d, .bound⟩ k t) = render ⟨d, .bound⟩ k t' := by
  obtain ⟨t', hvalues, ht⟩ := exists_squeeze (d := d) false t
  refine ⟨trim t', by rw [values_trim, hvalues], fun k => ?_⟩
  rw [Fragment.collapseChars, ht, trimChars_render]

end Bound

end Template

/-! ## Trees -/

namespace Doc

/-- The bound text of a tree is one template, whatever number of values stand before it. -/
theorem exists_template (d : Dialect) (a : Doc) :
    ∃ t, Template.values t = a.values ∧ ∀ k,
      a.text ⟨d, .bound⟩ k = Template.render ⟨d, .bound⟩ k t := by
  induction a with
  | own s plain =>
      exact ⟨Template.ofChars s.toList, Template.values_ofChars _, fun k => by simp⟩
  | leaf l => exact ⟨l.template d, by simp [values, leaves], fun k => rfl⟩
  | append a b iha ihb =>
      obtain ⟨s, hs, hsk⟩ := iha
      obtain ⟨t, ht, htk⟩ := ihb
      refine ⟨s ++ t, by rw [Template.values_append, hs, ht, values_append], fun k => ?_⟩
      rw [text, Template.render_append, hsk, htk, hs]
  | parens a ih =>
      obtain ⟨t, ht, htk⟩ := ih
      refine ⟨.char '(' :: (t ++ [.char ')']), by simpa using ht, fun k => ?_⟩
      rw [text, htk]
      simp [Template.render]
  | collapsed a ih =>
      obtain ⟨t, ht, htk⟩ := ih
      obtain ⟨t', ht', htk'⟩ := Template.exists_collapse (d := d) t
      exact ⟨t', ht'.trans ht, fun k => by rw [text, htk, htk']⟩
  | headed head plain a ih =>
      obtain ⟨t, ht, htk⟩ := ih
      refine ⟨under (Template.ofChars head.toList) t, ?_, fun k => by rw [text, htk, render_under]⟩
      rw [values_headed, ← ht]
      exact Template.values_under _ t
  | clause a b iha ihb =>
      obtain ⟨s, hs, hsk⟩ := iha
      obtain ⟨t, ht, htk⟩ := ihb
      refine ⟨spaced (.char ' ') s.trim t, ?_, fun k => by rw [text, hsk, htk, ← hs, render_spaced]⟩
      rw [values_clause, ← hs, ← ht]
      exact Template.values_spaced s t

/-- **The pieces of a text do not depend on the number of values before it.** -/
theorem exists_number (d : Dialect) (a : Doc) :
    ∃ pieces : List String, pieces.length = a.values.length + 1 ∧ ∀ k,
      String.ofList (a.text ⟨d, .bound⟩ k) = d.number pieces k := by
  obtain ⟨t, hvalues, ht⟩ := exists_template d a
  exact ⟨t.pieces, by rw [Template.length_pieces, hvalues], fun k => by
    rw [ht, Template.render_number]⟩

end Doc

end SelectSql
