import SelectSql.Operator
import SelectSql.Proofs.Characters

/-!
# SelectSql.Proofs.Operators

The spellings of the comparison operators, and which of them is read in front of a text.

Design points:

* **A spelling is a list of characters** (`Operator.Spells`): signs as they are, words in any
  case of their letters, and between NOT and the word behind it a run of spacing.
* **The longest spelling is the one that is read** (`Operator.Stands`), whatever the order in
  which the spellings are tried: what is tried first may only be longer. Two signs alone can
  go on, `<` and `>` (`Operator.read?_append`).

Main statements: `Operator.read?_eq_some_iff`, `Operator.read?_eq_none_iff`.
-/

namespace SelectSql

/-! ## Runs of characters -/

namespace Text

/-- `xs` is the longest run of characters with a property in front of `rest`. -/
structure Run (p : Char → Bool) (xs rest : List Char) : Prop where
  all : ∀ c ∈ xs, p c = true
  ends : ∀ c ∈ rest.head?, p c = false

namespace Run

variable {p : Char → Bool} {xs rest : List Char}

/-- A text splits into its first run and what stands behind it. -/
theorem span (p : Char → Bool) (cs : List Char) : Run p (cs.takeWhile p) (cs.dropWhile p) where
  all _ hc := List.mem_takeWhile_imp hc
  ends := eq_false_of_mem_head?_dropWhile cs

theorem exists_span (p : Char → Bool) (cs : List Char) :
    ∃ xs rest, cs = xs ++ rest ∧ Run p xs rest :=
  ⟨_, _, (List.takeWhile_append_dropWhile ..).symm, span p cs⟩

/-- Only the first character behind a run ends it. -/
theorem append_iff {ys : List Char} (hne : ys ≠ []) : Run p xs (ys ++ rest) ↔ Run p xs ys := by
  obtain ⟨y, ys, rfl⟩ := List.exists_cons_of_ne_nil hne
  exact ⟨fun h => ⟨h.all, h.ends⟩, fun h => ⟨h.all, h.ends⟩⟩

theorem nil_right (h : ∀ c ∈ xs, p c = true) : Run p xs [] := ⟨h, by simp⟩

theorem takeWhile_append (h : Run p xs rest) : (xs ++ rest).takeWhile p = xs := by
  have hrest : rest.takeWhile p = [] := by
    cases rest with
    | nil => rfl
    | cons c rest => rw [List.takeWhile_cons, h.ends c rfl, if_neg Bool.false_ne_true]
  rw [List.takeWhile_append_of_pos h.all, hrest, List.append_nil]

theorem dropWhile_append (h : Run p xs rest) : (xs ++ rest).dropWhile p = rest := by
  rw [List.dropWhile_append_of_pos h.all, dropWhile_eq_self h.ends]

/-- What a text begins with is its first run if it is taken as such. -/
theorem of_takeWhile (h : (xs ++ rest).takeWhile p = xs) : Run p xs rest := by
  have hspan := span p (xs ++ rest)
  have hsplit : (xs ++ rest).takeWhile p ++ (xs ++ rest).dropWhile p = xs ++ rest :=
    List.takeWhile_append_dropWhile
  rw [h] at hspan hsplit
  rwa [List.append_cancel_left hsplit] at hspan

end Run

/-- What separates words is no letter. -/
theorem toLower_ne_of_isSpacing {c l : Char} (hc : isSpacing c = true) (hl : l.isLower = true) :
    c.toLower ≠ l := by
  rintro rfl
  simp only [isSpacing, Bool.or_eq_true, beq_iff_eq] at hc
  rcases hc with ((rfl | rfl) | rfl) | rfl <;> exact absurd hl (by decide)

/-- A character that is no small letter has no other case. -/
theorem eq_of_toLower_eq {c d : Char} (h : c.toLower = d) (hd : d.isLower = false) : c = d := by
  delta Char.toLower at h
  split at h
  · next hupper =>
    -- a capital letter becomes a small one
    subst h
    delta Char.isLower at hd
    simp only [Bool.and_eq_false_iff, decide_eq_false_iff_not, ge_iff_le,
      UInt32.le_iff_toNat_le, UInt32.toNat_add] at hd hupper
    have hshift : ('a'.val - 'A'.val).toNat = 32 ∧ 'A'.val.toNat = 65 ∧ 'Z'.val.toNat = 90 ∧
      'a'.val.toNat = 97 ∧ 'z'.val.toNat = 122 := by decide
    omega
  · exact h

end Text

namespace Operator

/-! ## Spellings -/

/-- The spellings of an operator. -/
inductive Spells : Operator → List Char → Prop
  | eq : Spells .eq ['=']
  | ne : Spells .ne ['<', '>']
  | bangEq : Spells .ne ['!', '=']
  | gt : Spells .gt ['>']
  | ge : Spells .ge ['>', '=']
  | lt : Spells .lt ['<']
  | le : Spells .le ['<', '=']
  | like {cs} (h : cs.map Char.toLower = ['l', 'i', 'k', 'e']) : Spells .like cs
  | ilike {cs} (h : cs.map Char.toLower = ['i', 'l', 'i', 'k', 'e']) : Spells .ilike cs
  | notLike {no gap cs} (hno : no.map Char.toLower = ['n', 'o', 't']) (hne : gap ≠ [])
    (hgap : ∀ c ∈ gap, Text.isSpacing c = true)
    (h : cs.map Char.toLower = ['l', 'i', 'k', 'e']) : Spells .notLike (no ++ gap ++ cs)
  | notIlike {no gap cs} (hno : no.map Char.toLower = ['n', 'o', 't']) (hne : gap ≠ [])
    (hgap : ∀ c ∈ gap, Text.isSpacing c = true)
    (h : cs.map Char.toLower = ['i', 'l', 'i', 'k', 'e']) : Spells .notIlike (no ++ gap ++ cs)

/-- The text of an operator is one of its spellings. -/
theorem spells_symbol (op : Operator) : op.Spells op.symbol.toList := by
  cases op with
  | eq => exact .eq
  | ne => exact .ne
  | gt => exact .gt
  | ge => exact .ge
  | lt => exact .lt
  | le => exact .le
  | like => exact .like (by decide)
  | ilike => exact .ilike (by decide)
  | notLike =>
      have h : Spells .notLike (['N', 'O', 'T'] ++ [' '] ++ ['L', 'I', 'K', 'E']) :=
        .notLike (by decide) (by decide) (by decide) (by decide)
      exact h
  | notIlike =>
      have h : Spells .notIlike (['N', 'O', 'T'] ++ [' '] ++ ['I', 'L', 'I', 'K', 'E']) :=
        .notIlike (by decide) (by decide) (by decide) (by decide)
      exact h

/-- A spelling does not begin with spacing. -/
theorem Spells.exists_head {op : Operator} {sign : List Char} (h : op.Spells sign) :
    ∃ c cs, sign = c :: cs ∧ Text.isSpacing c = false := by
  -- the first letter of a word is none in either case
  have hword {l : Char} {ls xs : List Char} (hxs : xs.map Char.toLower = l :: ls)
      (hl : l.isLower = true) (rest : List Char) :
      ∃ c cs, xs ++ rest = c :: cs ∧ Text.isSpacing c = false := by
    obtain ⟨x, xs, rfl, hx, -⟩ := List.map_eq_cons_iff.1 hxs
    exact ⟨x, xs ++ rest, rfl, Bool.eq_false_iff.2 fun hspace =>
      Text.toLower_ne_of_isSpacing hspace hl hx⟩
  cases h with
  | eq | ne | bangEq | gt | ge | lt | le => exact ⟨_, _, rfl, by decide⟩
  | like h | ilike h => simpa using hword h (by decide) []
  | notLike hno | notIlike hno =>
      rw [List.append_assoc]
      exact hword hno (by decide) _

/-! ## Readers of words -/

theorem word?_eq_some_iff {w cs rest : List Char} :
    word? w cs = some rest ↔ ∃ xs, xs.map Char.toLower = w ∧ cs = xs ++ rest := by
  fun_induction word? w cs with
  | case1 cs => simp
  | case2 ws c cs ih =>
      rw [ih]
      constructor
      · rintro ⟨xs, rfl, rfl⟩
        exact ⟨c :: xs, rfl, rfl⟩
      · rintro ⟨xs, hxs, heq⟩
        obtain ⟨x, xs, rfl, -, htail⟩ := List.map_eq_cons_iff.1 hxs
        exact ⟨xs, htail, (List.cons.inj heq).2⟩
  | case3 w ws c cs hc =>
      refine iff_of_false (by simp) ?_
      rintro ⟨xs, hxs, heq⟩
      obtain ⟨x, xs, rfl, hx, -⟩ := List.map_eq_cons_iff.1 hxs
      obtain ⟨rfl, -⟩ := List.cons.inj heq
      exact hc hx
  | case4 w ws =>
      refine iff_of_false (by simp) ?_
      rintro ⟨xs, hxs, heq⟩
      obtain ⟨rfl, -⟩ := List.append_eq_nil_iff.1 heq.symm
      exact nomatch hxs

/-- A word is read with whatever follows it. -/
theorem word?_append {w xs : List Char} (h : xs.map Char.toLower = w) (rest : List Char) :
    word? w (xs ++ rest) = some rest :=
  word?_eq_some_iff.2 ⟨xs, h, rfl⟩

/-- A word does not begin with the letter of another one. -/
theorem word?_eq_none {w xs : List Char} {l l' : Char} {ls : List Char}
    (h : xs.map Char.toLower = l :: ls) (hne : l ≠ l') (rest : List Char) :
    word? (l' :: w) (xs ++ rest) = none := by
  obtain ⟨x, xs, rfl, rfl, -⟩ := List.map_eq_cons_iff.1 h
  exact if_neg hne

/-- Signs have no other case. -/
theorem eq_of_map_toLower {w xs : List Char} (hw : ∀ c ∈ w, c.isLower = false)
    (h : xs.map Char.toLower = w) : xs = w := by
  induction xs generalizing w with
  | nil => exact h
  | cons x xs ih =>
      subst h
      have hx : x = x.toLower := Text.eq_of_toLower_eq rfl (hw _ (by simp))
      rw [List.map_cons, ← hx, ← ih (fun c hc => hw c (by simp [hc])) rfl]

/-- Signs are read as they are. -/
theorem word?_sign {w cs rest : List Char} (hw : ∀ c ∈ w, c.isLower = false)
    (h : word? w cs = some rest) : cs = w ++ rest := by
  obtain ⟨xs, hxs, rfl⟩ := word?_eq_some_iff.1 h
  rw [eq_of_map_toLower hw hxs]

/-- Spacing ends where a word begins. -/
theorem run_spacing {gap xs : List Char} {l : Char} {ls : List Char} (hl : l.isLower = true)
    (hgap : ∀ c ∈ gap, Text.isSpacing c = true) (hxs : xs.map Char.toLower = l :: ls)
    (rest : List Char) : Text.Run Text.isSpacing gap (xs ++ rest) := by
  obtain ⟨x, xs, rfl, hx, -⟩ := List.map_eq_cons_iff.1 hxs
  refine ⟨hgap, fun c hc => ?_⟩
  obtain rfl : x = c := by simpa using hc
  exact Bool.eq_false_iff.2 fun hspace => Text.toLower_ne_of_isSpacing hspace hl hx

/-- A word behind NOT is read behind all the spacing. -/
theorem notWord?_append {no gap behind : List Char} (hno : no.map Char.toLower = ['n', 'o', 't'])
    (hne : gap ≠ []) (hgap : Text.Run Text.isSpacing gap behind) (w : List Char) :
    notWord? w (no ++ gap ++ behind) = word? w behind := by
  have hnot : word? ['n', 'o', 't'] (no ++ gap ++ behind) = some (gap ++ behind) :=
    word?_eq_some_iff.2 ⟨no, hno, List.append_assoc ..⟩
  rw [notWord?, hnot, Option.bind_eq_bind, Option.bind_some, hgap.takeWhile_append,
    hgap.dropWhile_append, if_neg (by simpa using hne)]

theorem exists_of_notWord? {w cs rest : List Char} (h : notWord? w cs = some rest) :
    ∃ no gap xs, no.map Char.toLower = ['n', 'o', 't'] ∧ gap ≠ [] ∧
      (∀ c ∈ gap, Text.isSpacing c = true) ∧ xs.map Char.toLower = w ∧
      cs = no ++ gap ++ xs ++ rest := by
  obtain ⟨behind, hnot, hbehind⟩ := Option.bind_eq_some_iff.1 h
  obtain ⟨no, hno, rfl⟩ := word?_eq_some_iff.1 hnot
  split at hbehind
  · contradiction
  · next hgap =>
    obtain ⟨xs, hxs, heq⟩ := word?_eq_some_iff.1 hbehind
    refine ⟨no, behind.takeWhile Text.isSpacing, xs, hno, by simpa using hgap,
      (Text.Run.span Text.isSpacing behind).all, hxs, ?_⟩
    rw [List.append_assoc, List.append_assoc, ← heq, List.takeWhile_append_dropWhile]

/-! ## The reader -/

/-- What is read in front of a text is a spelling. -/
theorem exists_spells_of_read? {cs rest : List Char} {op : Operator}
    (h : read? cs = some (op, rest)) : ∃ sign, op.Spells sign ∧ cs = sign ++ rest := by
  obtain ⟨s, hs, hread⟩ := List.exists_of_findSome?_eq_some h
  obtain ⟨rest', hrest, heq⟩ := Option.map_eq_some_iff.1 hread
  obtain ⟨rfl, rfl⟩ := Prod.mk.inj heq
  clear h hread heq
  simp only [spellings, List.mem_cons, List.not_mem_nil, or_false] at hs
  rcases hs with rfl | rfl | rfl | rfl | rfl | rfl | rfl | rfl | rfl | rfl | rfl
  · obtain ⟨no, gap, xs, hno, hne, hgap, hxs, rfl⟩ := exists_of_notWord? hrest
    exact ⟨_, .notIlike hno hne hgap hxs, rfl⟩
  · obtain ⟨no, gap, xs, hno, hne, hgap, hxs, rfl⟩ := exists_of_notWord? hrest
    exact ⟨_, .notLike hno hne hgap hxs, rfl⟩
  · obtain ⟨xs, hxs, rfl⟩ := word?_eq_some_iff.1 hrest
    exact ⟨_, .ilike hxs, rfl⟩
  · obtain ⟨xs, hxs, rfl⟩ := word?_eq_some_iff.1 hrest
    exact ⟨_, .like hxs, rfl⟩
  · exact ⟨_, .ne, word?_sign (by decide) hrest⟩
  · exact ⟨_, .bangEq, word?_sign (by decide) hrest⟩
  · exact ⟨_, .ge, word?_sign (by decide) hrest⟩
  · exact ⟨_, .le, word?_sign (by decide) hrest⟩
  · exact ⟨_, .eq, word?_sign (by decide) hrest⟩
  · exact ⟨_, .gt, word?_sign (by decide) hrest⟩
  · exact ⟨_, .lt, word?_sign (by decide) hrest⟩

/-- A word is read whatever stands behind it. -/
theorem read?_append_of_isPattern {op : Operator} {sign : List Char} (hop : op.isPattern = true)
    (h : op.Spells sign) (rest : List Char) : read? (sign ++ rest) = some (op, rest) := by
  cases h with
  | eq | ne | bangEq | gt | ge | lt | le => exact absurd hop (by decide)
  | like h =>
      have hilike : word? ['i', 'l', 'i', 'k', 'e'] (sign ++ rest) = none :=
        word?_eq_none h (by decide) rest
      have hnot (w : List Char) : notWord? w (sign ++ rest) = none := by
        rw [notWord?, word?_eq_none h (by decide)]
        rfl
      simp only [read?, spellings, List.findSome?_cons, hnot, hilike, word?_append h,
        Option.map_none, Option.map_some]
  | ilike h =>
      have hnot (w : List Char) : notWord? w (sign ++ rest) = none := by
        rw [notWord?, word?_eq_none h (by decide)]
        rfl
      simp only [read?, spellings, List.findSome?_cons, hnot, word?_append h, Option.map_none,
        Option.map_some]
  | @notLike no gap cs hno hne hgap h =>
      have hilike : word? ['i', 'l', 'i', 'k', 'e'] (cs ++ rest) = none :=
        word?_eq_none h (by decide) rest
      have hnot := notWord?_append hno hne (run_spacing (by decide) hgap h rest)
      rw [List.append_assoc]
      simp only [read?, spellings, List.findSome?_cons, hnot, hilike, word?_append h,
        Option.map_none, Option.map_some]
  | notIlike hno hne hgap h =>
      have hnot := notWord?_append hno hne (run_spacing (by decide) hgap h rest)
      rw [List.append_assoc]
      simp only [read?, spellings, List.findSome?_cons, hnot, word?_append h, Option.map_some]

/-- **A spelling in front of a text is read**, unless the text goes on with a sign that makes
the operator a longer one. -/
theorem read?_append {op : Operator} {sign : List Char} (h : op.Spells sign) (rest : List Char) :
    read? (sign ++ rest) = some (op, rest) ∨
      ∃ op' c rest', rest = c :: rest' ∧ (c = '=' ∨ c = '>') ∧
        read? (sign ++ rest) = some (op', rest') := by
  cases h with
  | eq | ne | bangEq | ge | le => exact .inl rfl
  | gt =>
      cases rest with
      | nil => exact .inl rfl
      | cons c rest =>
          by_cases hc : c = '='
          · subst hc
            exact .inr ⟨.ge, '=', rest, rfl, .inl rfl, rfl⟩
          · have hne := mt (Text.eq_of_toLower_eq (d := '=') · (by decide)) hc
            left
            simp [read?, spellings, notWord?, word?, hne]
  | lt =>
      cases rest with
      | nil => exact .inl rfl
      | cons c rest =>
          by_cases hc : c = '='
          · subst hc
            exact .inr ⟨.le, '=', rest, rfl, .inl rfl, rfl⟩
          by_cases hc' : c = '>'
          · subst hc'
            exact .inr ⟨.ne, '>', rest, rfl, .inr rfl, rfl⟩
          have hne := mt (Text.eq_of_toLower_eq (d := '=') · (by decide)) hc
          have hne' := mt (Text.eq_of_toLower_eq (d := '>') · (by decide)) hc'
          left
          simp [read?, spellings, notWord?, word?, hne, hne']
  | like h => exact .inl (read?_append_of_isPattern rfl (.like h) rest)
  | ilike h => exact .inl (read?_append_of_isPattern rfl (.ilike h) rest)
  | notLike hno hne hgap h =>
      exact .inl (read?_append_of_isPattern rfl (.notLike hno hne hgap h) rest)
  | notIlike hno hne hgap h =>
      exact .inl (read?_append_of_isPattern rfl (.notIlike hno hne hgap h) rest)

/-- A text that cannot go on with a sign ends the operator. -/
theorem read?_append_of_ne {op : Operator} {sign rest : List Char} (h : op.Spells sign)
    (hrest : ∀ c ∈ rest.head?, c ≠ '=' ∧ c ≠ '>') : read? (sign ++ rest) = some (op, rest) := by
  rcases read?_append h rest with hread | ⟨op', c, rest', rfl, hc, -⟩
  · exact hread
  · obtain ⟨heq, hgt⟩ := hrest c rfl
    exact absurd hc (not_or.2 ⟨heq, hgt⟩)

/-- No spelling is that of two operators. -/
theorem Spells.unique {op op' : Operator} {sign : List Char} (h : op.Spells sign)
    (h' : op'.Spells sign) : op = op' := by
  have hread : read? (sign ++ []) = some (op, []) := read?_append_of_ne h (by simp)
  rw [read?_append_of_ne h' (by simp)] at hread
  exact (Prod.mk.inj (Option.some.inj hread)).1.symm

/-- A spelling of the operator stands in front of a text, and no longer spelling does. -/
structure Stands (op : Operator) (sign rest : List Char) : Prop where
  spelled : op.Spells sign
  longest : ∀ op' sign', Spells op' sign' → sign' <+: sign ++ rest → sign'.length ≤ sign.length

/-- What is read behind a spelling is no longer than what stands there. -/
theorem exists_read?_append {op : Operator} {sign : List Char} (h : op.Spells sign)
    (rest : List Char) :
    ∃ op' rest', read? (sign ++ rest) = some (op', rest') ∧ rest'.length ≤ rest.length := by
  rcases read?_append h rest with hread | ⟨op', c, rest', rfl, -, hread⟩
  · exact ⟨op, rest, hread, le_rfl⟩
  · exact ⟨op', rest', hread, by simp⟩

/-- **The longest spelling in front of a text is read**, with the text behind it. -/
theorem read?_eq_some_iff {op : Operator} {cs rest : List Char} :
    read? cs = some (op, rest) ↔ ∃ sign, op.Stands sign rest ∧ cs = sign ++ rest := by
  constructor
  · intro hread
    obtain ⟨sign, hsign, rfl⟩ := exists_spells_of_read? hread
    refine ⟨sign, ⟨hsign, fun op' sign' hsign' ⟨rest', heq⟩ => ?_⟩, rfl⟩
    -- the reader would have gone as far as the other spelling
    obtain ⟨op₁, rest₁, hread₁, hle⟩ := exists_read?_append hsign' rest'
    rw [heq, hread] at hread₁
    obtain ⟨-, rfl⟩ := Prod.mk.inj (Option.some.inj hread₁)
    have hlength := congrArg List.length heq
    simp only [List.length_append] at hlength
    omega
  · rintro ⟨sign, ⟨hsign, hlongest⟩, rfl⟩
    obtain ⟨op', rest', hread, hle⟩ := exists_read?_append hsign rest
    obtain ⟨sign', hsign', heq⟩ := exists_spells_of_read? hread
    have hle' := hlongest op' sign' hsign' ⟨rest', heq.symm⟩
    obtain ⟨rfl, rfl⟩ : sign = sign' ∧ rest = rest' := by
      refine List.append_inj heq ?_
      have hlength := congrArg List.length heq
      simp only [List.length_append] at hlength
      omega
    rw [hread, hsign.unique hsign']

/-- Nothing is read where no spelling stands. -/
theorem read?_eq_none_iff {cs : List Char} :
    read? cs = none ↔ ∀ op sign, Spells op sign → ¬ sign <+: cs := by
  constructor
  · rintro hnone op sign hsign ⟨rest, rfl⟩
    obtain ⟨op', rest', hread, -⟩ := exists_read?_append hsign rest
    rw [hnone] at hread
    contradiction
  · intro h
    rw [Option.eq_none_iff_forall_ne_some]
    rintro ⟨op, rest⟩ hread
    obtain ⟨sign, hsign, rfl⟩ := exists_spells_of_read? hread
    exact h op sign hsign (List.prefix_append sign rest)

/-- A spelling stands where the text behind it cannot go on with a sign. -/
theorem Spells.stands {op : Operator} {sign rest : List Char} (h : op.Spells sign)
    (hrest : ∀ c ∈ rest.head?, c ≠ '=' ∧ c ≠ '>') : op.Stands sign rest := by
  obtain ⟨sign', hstands, heq⟩ := read?_eq_some_iff.1 (read?_append_of_ne h hrest)
  rwa [List.append_cancel_right heq]

/-- A word stands in front of any text. -/
theorem Spells.stands_of_isPattern {op : Operator} {sign : List Char} (h : op.Spells sign)
    (hop : op.isPattern = true) (rest : List Char) : op.Stands sign rest := by
  obtain ⟨sign', hstands, heq⟩ := read?_eq_some_iff.1 (read?_append_of_isPattern hop h rest)
  rwa [List.append_cancel_right heq]

end Operator

end SelectSql
