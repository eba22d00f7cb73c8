import SelectSql.Proofs.Operators

/-!
# SelectSql.Proofs.OperatorTokens

Which tokens are operators, and what of a token does not matter.

Design points:

* **A token is read to its end** (`Operator.ofToken_eq_ok_iff`). Where a spelling stands in front
  of a text, a longer one is read if there is one, so a spelling with nothing behind it is read
  as itself.
* **What does not matter is the blank space around a token and the case of its letters**
  (`Text.caseless`). Both are lost before the spellings are told apart
  (`Text.map_caseless_trimChars`, `Operator.Spells.of_caseless`).

Main statement: `Operator.ofToken_spells`.
-/

namespace SelectSql

/-! ## Characters without their case -/

namespace Text

/-- A character without its case. Of a character that is neither in ASCII nor blank nothing
remains but that it is one, as no operator is spelled with it. -/
def caseless (c : Char) : Char :=
  if c.toNat < 128 ∨ isBlank c = true then c.toLower else '\ufffd'

/-- A character has another case only if it is a capital letter. -/
theorem toLower_cases (c : Char) :
    c.toLower = c ∨ 65 ≤ c.toNat ∧ c.toNat ≤ 90 ∧ c.toLower.toNat = c.toNat + 32 := by
  delta Char.toLower
  split
  · next h =>
    right
    have hcode := h
    simp only [ge_iff_le, UInt32.le_iff_toNat_le] at hcode
    have hA : 'A'.val.toNat = 65 := rfl
    have hZ : 'Z'.val.toNat = 90 := rfl
    have hshift : ('a'.val - 'A'.val).toNat = 32 := rfl
    refine ⟨by simpa [hA] using hcode.1, by simpa [hZ] using hcode.2, ?_⟩
    show (c.val + ('a'.val - 'A'.val)).toNat = c.val.toNat + 32
    rw [UInt32.toNat_add, hshift]
    omega
  · exact .inl rfl

/-- Blank characters have no case. -/
theorem isBlank_toLower (c : Char) : isBlank c.toLower = isBlank c := by
  rcases toLower_cases c with h | ⟨hlow, hhigh, hlower⟩
  · rw [h]
  · -- neither a capital letter nor a small one is blank
    rw [Bool.eq_iff_iff]
    simp only [isBlank, hlower, Bool.or_eq_true, Bool.and_eq_true, decide_eq_true_eq, beq_iff_eq]
    omega

theorem isBlank_caseless (c : Char) : isBlank (caseless c) = isBlank c := by
  rw [caseless]
  split
  · exact isBlank_toLower c
  · next h =>
    rw [not_or, Bool.not_eq_true] at h
    rw [h.2]
    rfl

/-- In ASCII a character without its case is the small letter. -/
theorem caseless_eq_iff {c l : Char} (hl : l.toNat < 128) : caseless c = l ↔ c.toLower = l := by
  rw [caseless]
  split
  · exact Iff.rfl
  · next h =>
    rw [not_or, Nat.not_lt] at h
    have hwide : c.toLower = c := (toLower_cases c).resolve_right (by omega)
    rw [hwide]
    refine iff_of_false ?_ ?_ <;> rintro rfl
    · exact absurd hl (by decide)
    · omega

theorem map_caseless_eq_iff {cs w : List Char} (hw : ∀ l ∈ w, l.toNat < 128) :
    cs.map caseless = w ↔ cs.map Char.toLower = w := by
  induction w generalizing cs with
  | nil => rw [List.map_eq_nil_iff, List.map_eq_nil_iff]
  | cons l w ih =>
      obtain ⟨hl, hw⟩ := List.forall_mem_cons.1 hw
      rw [List.map_eq_cons_iff, List.map_eq_cons_iff]
      simp only [caseless_eq_iff hl, ih hw]

theorem isSpacing_caseless (c : Char) : isSpacing (caseless c) = isSpacing c := by
  have hsign {l : Char} (hl : l.toNat < 128) (hlower : l.isLower = false)
      (hself : l.toLower = l) : caseless c = l ↔ c = l := by
    rw [caseless_eq_iff hl]
    exact ⟨fun h => eq_of_toLower_eq h hlower, fun h => h ▸ hself⟩
  rw [Bool.eq_iff_iff]
  simp only [isSpacing, Bool.or_eq_true, beq_iff_eq]
  rw [hsign (by decide) (by decide) (by decide), hsign (by decide) (by decide) (by decide),
    hsign (by decide) (by decide) (by decide), hsign (by decide) (by decide) (by decide)]

/-- Trimming does not look at the case. -/
theorem map_caseless_trimChars (cs : List Char) :
    (trimChars cs).map caseless = trimChars (cs.map caseless) := by
  have hblank : isBlank ∘ caseless = isBlank := funext isBlank_caseless
  rw [trimChars_eq_trimBy, trimChars_eq_trimBy, trimBy_map, hblank]

/-- Blanks around a text are lost in trimming, with those that the text has. -/
theorem trimChars_append {front back : List Char} (hfront : ∀ c ∈ front, isBlank c = true)
    (hback : ∀ c ∈ back, isBlank c = true) (cs : List Char) :
    trimChars (front ++ cs ++ back) = trimChars cs := by
  obtain ⟨front', back', heq, hfront', hback', htrim⟩ := exists_trimBy isBlank cs
  have hsplit : front ++ cs ++ back =
      (front ++ front') ++ trimBy isBlank cs ++ (back' ++ back) :=
    (congrArg (fun l => front ++ l ++ back) heq).trans (by simp)
  rw [trimChars_eq_trimBy, trimChars_eq_trimBy, hsplit]
  exact trimBy_append (List.forall_mem_append.2 ⟨hfront, hfront'⟩)
    (List.forall_mem_append.2 ⟨hback', hback⟩) htrim

end Text

namespace Operator

/-! ## Spellings without their case -/

/-- The case of its letters does not matter for what a text spells. -/
theorem Spells.of_caseless {op : Operator} {cs ds : List Char} (h : op.Spells cs)
    (hsame : ds.map Text.caseless = cs.map Text.caseless) : op.Spells ds := by
  have hword {w xs ys : List Char} (hw : ∀ l ∈ w, l.toNat < 128)
      (hxs : xs.map Char.toLower = w) (hys : ys.map Text.caseless = xs.map Text.caseless) :
      ys.map Char.toLower = w := by
    rw [← Text.map_caseless_eq_iff hw, hys, Text.map_caseless_eq_iff hw, hxs]
  have hsign {w : List Char} (hw : ∀ l ∈ w, l.toNat < 128 ∧ l.isLower = false)
      (hlower : w.map Char.toLower = w) (hds : ds.map Text.caseless = w.map Text.caseless) :
      ds = w :=
    eq_of_map_toLower (fun l hl => (hw l hl).2) (hword (fun l hl => (hw l hl).1) hlower hds)
  -- behind NOT, the parts of the one text are found in the other
  have hnot {no gap xs w : List Char} (hno : no.map Char.toLower = ['n', 'o', 't'])
      (hne : gap ≠ []) (hgap : ∀ c ∈ gap, Text.isSpacing c = true)
      (hw : ∀ l ∈ w, l.toNat < 128) (hxs : xs.map Char.toLower = w)
      (hds : ds.map Text.caseless = (no ++ gap ++ xs).map Text.caseless) :
      ∃ no' gap' xs', ds = no' ++ gap' ++ xs' ∧ no'.map Char.toLower = ['n', 'o', 't'] ∧
        gap' ≠ [] ∧ (∀ c ∈ gap', Text.isSpacing c = true) ∧ xs'.map Char.toLower = w := by
    rw [List.map_append, List.map_append, List.map_eq_append_iff] at hds
    obtain ⟨front, xs', rfl, hfront, hxs'⟩ := hds
    obtain ⟨no', gap', rfl, hno', hgap'⟩ := List.map_eq_append_iff.1 hfront
    refine ⟨no', gap', xs', rfl, hword (by decide) hno hno', ?_, fun c hc => ?_,
      hword hw hxs hxs'⟩
    · rintro rfl
      exact hne (List.map_eq_nil_iff.1 hgap'.symm)
    · obtain ⟨s, hs, heq⟩ := List.mem_map.1 (hgap' ▸ List.mem_map_of_mem hc)
      rw [← Text.isSpacing_caseless, ← heq, Text.isSpacing_caseless, hgap s hs]
  cases h with
  | eq => exact hsign (by decide) (by decide) hsame ▸ .eq
  | ne => exact hsign (by decide) (by decide) hsame ▸ .ne
  | bangEq => exact hsign (by decide) (by decide) hsame ▸ .bangEq
  | gt => exact hsign (by decide) (by decide) hsame ▸ .gt
  | ge => exact hsign (by decide) (by decide) hsame ▸ .ge
  | lt => exact hsign (by decide) (by decide) hsame ▸ .lt
  | le => exact hsign (by decide) (by decide) hsame ▸ .le
  | like h => exact .like (hword (by decide) h hsame)
  | ilike h => exact .ilike (hword (by decide) h hsame)
  | notLike hno hne hgap h =>
      obtain ⟨no', gap', xs', rfl, hno', hne', hgap', h'⟩ := hnot hno hne hgap (by decide) h hsame
      exact .notLike hno' hne' hgap' h'
  | notIlike hno hne hgap h =>
      obtain ⟨no', gap', xs', rfl, hno', hne', hgap', h'⟩ := hnot hno hne hgap (by decide) h hsame
      exact .notIlike hno' hne' hgap' h'

theorem spells_iff_of_caseless {cs ds : List Char}
    (hsame : ds.map Text.caseless = cs.map Text.caseless) (op : Operator) :
    op.Spells ds ↔ op.Spells cs :=
  ⟨fun h => h.of_caseless hsame.symm, fun h => h.of_caseless hsame⟩

/-! ## Tokens -/

/-- A token is an operator exactly if it spells the operator between the blanks at its ends. -/
theorem ofToken_eq_ok_iff {token : String} {op : Operator} :
    ofToken token = .ok op ↔ op.Spells (Text.trimChars token.toList) := by
  rw [ofToken]
  constructor
  · intro h
    split at h
    · next op' hread =>
      obtain rfl := Except.ok.inj h
      obtain ⟨sign, hsign, hcs⟩ := exists_spells_of_read? hread
      rwa [hcs, List.append_nil]
    · contradiction
  · intro h
    have hread : read? (Text.trimChars token.toList ++ []) = some (op, []) :=
      read?_append_of_ne h (by simp)
    rw [List.append_nil] at hread
    rw [hread]

/-- The only error of reading an operator is that there is none. -/
theorem ofToken_eq_error_iff {token : String} {e : QueryError} :
    ofToken token = .error e ↔
      (ofToken token).isOk = false ∧ e = .unsupportedOperator token := by
  rw [ofToken]
  split
  · exact iff_of_false (fun h => nomatch h) fun h => nomatch h.1
  · rw [Except.error.injEq, eq_comm]
    exact (and_iff_right rfl).symm

/-- A token is refused exactly if it spells no operator. -/
theorem isOk_ofToken_eq_false_iff {token : String} :
    (ofToken token).isOk = false ↔ ∀ op : Operator, ¬op.Spells (Text.trimChars token.toList) := by
  simp only [← ofToken_eq_ok_iff]
  cases ofToken token with
  | ok op => exact iff_of_false Bool.noConfusion fun hnone => hnone op rfl
  | error e => exact iff_of_true rfl fun op h => nomatch h

/-- The text of an operator has no blanks at its ends. -/
theorem ofToken_symbol (op : Operator) : ofToken op.symbol = .ok op := by
  have htrim : Text.trimChars op.symbol.toList = op.symbol.toList := by cases op <;> decide
  rw [ofToken_eq_ok_iff, htrim]
  exact spells_symbol op

/-- **The tokens that are accepted are the spellings of the operators**, with any blanks around
them and in any case of their letters; every other token is refused as it was given. The text of
an operator is accepted as this operator. -/
theorem ofToken_spells (token : String) :
    (∀ op, ofToken token = .ok op ↔ op.Spells (Text.trimChars token.toList)) ∧
    (∀ e, ofToken token = .error e ↔
      (∀ op : Operator, ¬op.Spells (Text.trimChars token.toList)) ∧
        e = .unsupportedOperator token) ∧
    (∀ op, ofToken token = .ok op → ofToken op.symbol = .ok op) ∧
    ∀ token' front back : String,
      (∀ c ∈ front.toList, Text.isBlank c = true) → (∀ c ∈ back.toList, Text.isBlank c = true) →
      token'.toList.map Text.caseless = token.toList.map Text.caseless →
      (ofToken (front ++ token' ++ back)).toOption = (ofToken token).toOption := by
  refine ⟨fun op => ofToken_eq_ok_iff,
    fun e => by rw [ofToken_eq_error_iff, isOk_ofToken_eq_false_iff],
    fun op _ => ofToken_symbol op, fun token' front back hfront hback hsame => ?_⟩
  have hspells (op : Operator) :
      op.Spells (Text.trimChars (front ++ token' ++ back).toList) ↔
        op.Spells (Text.trimChars token.toList) := by
    rw [String.toList_append, String.toList_append, Text.trimChars_append hfront hback]
    refine spells_iff_of_caseless ?_ op
    rw [Text.map_caseless_trimChars, Text.map_caseless_trimChars, hsame]
  have hsome (t : String) (op : Operator) :
      (ofToken t).toOption = some op ↔ ofToken t = .ok op := by
    cases ofToken t <;> simp [Except.toOption]
  ext op
  rw [hsome, hsome, ofToken_eq_ok_iff, ofToken_eq_ok_iff, hspells]

/-- A token with a tab behind NOT, letters in either case, and blanks outside ASCII around it. -/
theorem ofToken_spells_notIlike :
    (∀ c ∈ "\u3000 ".toList, Text.isBlank c = true) ∧
    (∀ c ∈ "\u00a0".toList, Text.isBlank c = true) ∧
    "nOt\t iLIKE".toList.map Text.caseless = "NOT\t ilike".toList.map Text.caseless ∧
    ofToken "NOT\t ilike" = .ok .notIlike ∧
    (ofToken ("\u3000 " ++ "nOt\t iLIKE" ++ "\u00a0")).toOption = some .notIlike := by
  have hfront : ∀ c ∈ "\u3000 ".toList, Text.isBlank c = true := by decide
  have hback : ∀ c ∈ "\u00a0".toList, Text.isBlank c = true := by decide
  have hsame : "nOt\t iLIKE".toList.map Text.caseless =
      "NOT\t ilike".toList.map Text.caseless := by decide
  have htoken : ofToken "NOT\t ilike" = .ok .notIlike := by rfl
  obtain ⟨-, -, -, hsurrounded⟩ := ofToken_spells "NOT\t ilike"
  refine ⟨hfront, hback, hsame, htoken, ?_⟩
  rw [hsurrounded _ _ _ hfront hback hsame, htoken]
  rfl

end Operator

end SelectSql
