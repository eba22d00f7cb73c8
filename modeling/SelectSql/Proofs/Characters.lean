import SelectSql.Text.Alphanumeric
import SelectSql.Text.Blank
import Mathlib.Data.List.Basic
import Mathlib.Data.List.TakeWhile

/-!
# SelectSql.Proofs.Characters

How the character classes exclude each other, and what trimming takes away.
-/

namespace SelectSql.Text

/-- What holds of the characters of a list is decided along the list, and not by going
through all characters there are. -/
instance (priority := high) decidableForallMem (l : List Char) (p : Char → Prop)
    [DecidablePred p] : Decidable (∀ c ∈ l, p c) :=
  List.decidableBAll p l

/-! ## Names and blanks -/

/-- The codes of the blank characters. -/
def blankCodes : List Nat :=
  List.range' 9 5 ++ List.range' 0x2000 11 ++
    [0x20, 0x85, 0xA0, 0x1680, 0x2028, 0x2029, 0x202F, 0x205F, 0x3000]

theorem toNat_mem_blankCodes {c : Char} (h : isBlank c = true) : c.toNat ∈ blankCodes := by
  simp only [isBlank, Bool.or_eq_true, Bool.and_eq_true, decide_eq_true_eq, beq_iff_eq] at h
  simp only [blankCodes, List.mem_append, List.mem_range'_1, List.mem_cons, List.not_mem_nil,
    or_false]
  omega

/-- No blank character has a place in the table of letters and digits. -/
theorem isNameChar_of_mem_blankCodes :
    ∀ n ∈ blankCodes, isNameChar (Char.ofNat n) = false := by
  decide +kernel

/-- The characters of names are not blank. -/
theorem isBlank_of_isNameChar {c : Char} (h : isNameChar c = true) : isBlank c = false := by
  cases hb : isBlank c with
  | false => rfl
  | true =>
      have hn := isNameChar_of_mem_blankCodes _ (toNat_mem_blankCodes hb)
      rw [Char.ofNat_toNat, h] at hn
      contradiction

theorem ne_quote_of_isBlank {c : Char} (h : isBlank c = true) : c ≠ '\'' := by
  rintro rfl
  exact absurd h (by decide)

/-! ## Digits -/

/-- The decimal digits. -/
def digits : List Char :=
  "0123456789".toList

theorem mem_digits_of_isDigit {c : Char} (h : c.isDigit = true) : c ∈ digits := by
  have hcode : c.toNat ∈ List.range' 48 10 := by
    simp only [Char.isDigit, Bool.and_eq_true, decide_eq_true_eq, ge_iff_le,
      UInt32.le_iff_toNat_le] at h
    rw [List.mem_range'_1]
    exact ⟨h.1, Nat.lt_succ_of_le h.2⟩
  have hall : ∀ n ∈ List.range' 48 10, Char.ofNat n ∈ digits := by decide
  simpa using hall _ hcode

/-! ## Trimming -/

section Trim

variable {α : Type} {p : α → Bool}

/-- Drops the elements with a property at both ends. -/
def trimBy (p : α → Bool) (l : List α) : List α :=
  ((l.dropWhile p).reverse.dropWhile p).reverse

theorem trimChars_eq_trimBy (cs : List Char) : trimChars cs = trimBy isBlank cs := rfl

/-- The first element that is not dropped does not have the property. -/
theorem eq_false_of_mem_head?_dropWhile (l : List α) :
    ∀ a ∈ (l.dropWhile p).head?, p a = false := by
  intro a ha
  have hhead := List.head?_dropWhile_not p l
  rw [Option.mem_def.1 ha] at hhead
  exact hhead

/-- What is trimmed neither begins nor ends with an element that has the property. -/
structure Trimmed (p : α → Bool) (l : List α) : Prop where
  head : ∀ a ∈ l.head?, p a = false
  last : ∀ a ∈ l.getLast?, p a = false

/-- What stands between two elements without the property is trimmed. -/
theorem Trimmed.between {first last : α} (hfirst : p first = false) (hlast : p last = false)
    (l : List α) : Trimmed p (first :: l ++ [last]) where
  head a ha := by
    obtain rfl : first = a := by simpa using ha
    exact hfirst
  last a ha := by
    rw [List.getLast?_concat] at ha
    exact Option.some.inj ha ▸ hlast

theorem dropWhile_eq_self {l : List α} (h : ∀ a ∈ l.head?, p a = false) : l.dropWhile p = l := by
  refine List.dropWhile_eq_self_iff.2 fun hl => Bool.eq_false_iff.1 (h _ ?_)
  exact List.head?_eq_getElem? ▸ List.getElem?_eq_getElem hl

/-- Trimming splits a list: what is dropped in front, what remains, what is dropped
behind. -/
theorem exists_trimBy (p : α → Bool) (l : List α) :
    ∃ front back : List α, l = front ++ trimBy p l ++ back ∧
      (∀ a ∈ front, p a = true) ∧ (∀ a ∈ back, p a = true) ∧ Trimmed p (trimBy p l) := by
  refine ⟨l.takeWhile p, ((l.dropWhile p).reverse.takeWhile p).reverse, ?_,
    fun a ha => List.mem_takeWhile_imp ha,
    fun a ha => List.mem_takeWhile_imp (List.mem_reverse.1 ha), ?_, ?_⟩
  · rw [trimBy, List.append_assoc, ← List.reverse_append, List.takeWhile_append_dropWhile,
      List.reverse_reverse, List.takeWhile_append_dropWhile]
  · -- the head of what remains is that of the list behind its dropped beginning
    intro a ha
    rw [trimBy, List.head?_reverse] at ha
    have hsuffix : (l.dropWhile p).reverse.dropWhile p <:+ (l.dropWhile p).reverse :=
      List.dropWhile_suffix p
    obtain ⟨front, hfront⟩ := hsuffix
    refine eq_false_of_mem_head?_dropWhile l a ?_
    rw [← List.getLast?_reverse, ← hfront, List.getLast?_append]
    simp [Option.mem_def.1 ha]
  · intro a ha
    rw [trimBy, List.getLast?_reverse] at ha
    exact eq_false_of_mem_head?_dropWhile _ a ha

/-- Such a split determines what remains. -/
theorem trimBy_append {front mid back : List α} (hfront : ∀ a ∈ front, p a = true)
    (hback : ∀ a ∈ back, p a = true) (hmid : Trimmed p mid) :
    trimBy p (front ++ mid ++ back) = mid := by
  cases mid with
  | nil =>
      -- nothing remains: the first pass drops both runs
      have hall : (front ++ [] ++ back).dropWhile p = [] := by
        rw [List.append_nil, List.dropWhile_append_of_pos hfront, ← List.append_nil back,
          List.dropWhile_append_of_pos hback, List.dropWhile_nil]
      rw [trimBy, hall]
      rfl
  | cons a mid =>
      have hdrop : (front ++ (a :: mid) ++ back).dropWhile p = (a :: mid) ++ back := by
        rw [List.append_assoc, List.dropWhile_append_of_pos hfront]
        exact dropWhile_eq_self (by simpa using hmid.head)
      have hback' : ∀ b ∈ back.reverse, p b = true := fun b hb => hback b (List.mem_reverse.1 hb)
      have hlast : ∀ b ∈ (a :: mid).reverse.head?, p b = false := by
        rw [List.head?_reverse]
        exact hmid.last
      rw [trimBy, hdrop, List.reverse_append, List.dropWhile_append_of_pos hback',
        dropWhile_eq_self hlast, List.reverse_reverse]

/-- A list that is trimmed already stays as it is. -/
theorem trimBy_eq_self {l : List α} (h : Trimmed p l) : trimBy p l = l := by
  have hnone : ∀ a ∈ ([] : List α), p a = true := by simp
  simpa using trimBy_append hnone hnone h

/-- Trimming looks at nothing but the property. -/
theorem trimBy_map {β : Type} (p : β → Bool) (f : α → β) (l : List α) :
    trimBy p (l.map f) = (trimBy (p ∘ f) l).map f := by
  rw [trimBy, trimBy, List.dropWhile_map, ← List.map_reverse, List.dropWhile_map,
    ← List.map_reverse]

/-- What is put together from trimmed parts is trimmed, if the parts at its ends are not
empty. -/
theorem Trimmed.flatMap {β : Type} {q : β → Bool} {g : α → List β} {l : List α}
    (hg : ∀ a, p a = false → g a ≠ [] ∧ Trimmed q (g a)) (h : Trimmed p l) :
    Trimmed q (l.flatMap g) := by
  constructor
  · cases l with
    | nil => simp
    | cons a l =>
        obtain ⟨hne, htrim⟩ := hg a (h.head a rfl)
        intro b hb
        rw [List.flatMap_cons, List.head?_append_of_ne_nil _ hne] at hb
        exact htrim.head b hb
  · rcases List.eq_nil_or_concat l with rfl | ⟨l, a, rfl⟩
    · simp
    · rw [List.concat_eq_append] at h ⊢
      obtain ⟨hne, htrim⟩ := hg a (h.last a (by simp))
      intro b hb
      rw [List.flatMap_append, List.flatMap_singleton, List.getLast?_append_of_ne_nil _ hne] at hb
      exact htrim.last b hb

/-- Trimming drops whole parts, if a part is either dropped or trimmed itself. -/
theorem trimBy_flatMap {β : Type} {q : β → Bool} {g : α → List β}
    (hdropped : ∀ a, p a = true → ∀ b ∈ g a, q b = true)
    (hg : ∀ a, p a = false → g a ≠ [] ∧ Trimmed q (g a)) (l : List α) :
    trimBy q (l.flatMap g) = (trimBy p l).flatMap g := by
  obtain ⟨front, back, heq, hfront, hback, htrim⟩ := exists_trimBy p l
  have hall {l : List α} (hl : ∀ a ∈ l, p a = true) : ∀ b ∈ l.flatMap g, q b = true := by
    intro b hb
    obtain ⟨a, ha, hb⟩ := List.mem_flatMap.1 hb
    exact hdropped a (hl a ha) b hb
  have hsplit : l.flatMap g =
      front.flatMap g ++ (trimBy p l).flatMap g ++ back.flatMap g := by
    rw [← List.flatMap_append, ← List.flatMap_append, ← heq]
  rw [hsplit]
  exact trimBy_append (hall hfront) (hall hback) (htrim.flatMap hg)

/-- What begins behind a list without the property is not dropped with it. -/
theorem exists_dropWhile_append {l : List α} (h : ∀ a ∈ l.head?, p a = false) (front : List α) :
    ∃ front', (front ++ l).dropWhile p = front' ++ l := by
  rw [List.dropWhile_append]
  split
  · exact ⟨[], dropWhile_eq_self h⟩
  · exact ⟨front.dropWhile p, rfl⟩

/-- Trimming leaves a trimmed part of a list whole. -/
theorem Trimmed.infix_trimBy {l part : List α} (h : Trimmed p part) (hpart : part <:+: l) :
    part <:+: trimBy p l := by
  obtain ⟨front, back, rfl⟩ := hpart
  rcases part with _ | ⟨a, part⟩
  · exact List.nil_infix
  · have hhead : ∀ b ∈ ((a :: part) ++ back).head?, p b = false := by simpa using h.head
    obtain ⟨front', hfront⟩ := exists_dropWhile_append hhead front
    have hlast : ∀ b ∈ ((a :: part).reverse ++ front'.reverse).head?, p b = false := by
      intro b hb
      refine h.last b ?_
      rwa [List.head?_append, List.head?_reverse, List.getLast?_cons, Option.some_or,
        ← List.getLast?_cons] at hb
    obtain ⟨back', hback⟩ := exists_dropWhile_append hlast back.reverse
    refine ⟨front', back'.reverse, ?_⟩
    rw [trimBy, List.append_assoc front, hfront, List.reverse_append, List.reverse_append,
      List.append_assoc back.reverse, hback]
    simp

/-- Between two elements that are not dropped everything stays. -/
theorem trimBy_append_cons {front : List α} {a : α} (hfront : ∀ b ∈ front.head?, p b = false)
    (ha : p a = false) (back : List α) :
    trimBy p (front ++ a :: back) = front ++ trimBy p (a :: back) := by
  have hdrop : (front ++ a :: back).dropWhile p = front ++ a :: back := by
    refine dropWhile_eq_self fun b hb => ?_
    cases front with
    | nil => exact (by simpa using hb : a = b) ▸ ha
    | cons c front => exact hfront b hb
  have hlast : ((a :: back).reverse.dropWhile p).isEmpty = false := by
    rw [List.isEmpty_eq_false_iff, Ne, List.dropWhile_eq_nil_iff]
    intro hall
    have hpa := hall a (by simp)
    rw [ha] at hpa
    contradiction
  rw [trimBy, trimBy, hdrop, dropWhile_eq_self (l := a :: back) (by simpa using ha),
    List.reverse_append, List.dropWhile_append, hlast, if_neg Bool.false_ne_true,
    List.reverse_append, List.reverse_reverse]

end Trim

end SelectSql.Text
