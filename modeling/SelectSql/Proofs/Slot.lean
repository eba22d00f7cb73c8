import SelectSql.Draft
import SelectSql.Proofs.Quotes

/-!
# SelectSql.Proofs.Slot

What stands in a statement where a value is written: a placeholder, or the literal of
the value. Either is a quoted string or a short run of digits, signs and letters
(`slot_cases`), so a slot is never empty, is balanced, and has no blank outside quotes.
-/

namespace SelectSql

/-! ## Numerals -/

/-- The characters of placeholders and of literals that are not quoted. -/
def slotChars : List Char :=
  "0123456789-.$@?pNULtruefalsin".toList

/-- A text that a slot can hold without quotes. -/
structure SlotWord (cs : List Char) : Prop where
  ne_nil : cs ≠ []
  chars : ∀ c ∈ cs, c ∈ slotChars

instance (cs : List Char) : Decidable (SlotWord cs) :=
  decidable_of_iff (cs ≠ [] ∧ ∀ c ∈ cs, c ∈ slotChars) ⟨fun h => ⟨h.1, h.2⟩, fun h => ⟨h.1, h.2⟩⟩

theorem mem_slotChars_of_isDigit {c : Char} (h : c.isDigit = true) : c ∈ slotChars := by
  have hall : ∀ d ∈ Text.digits, d ∈ slotChars := by decide
  exact hall c (Text.mem_digits_of_isDigit h)

theorem SlotWord.append {xs ys : List Char} (hx : ∀ c ∈ xs, c ∈ slotChars)
    (hy : SlotWord ys) : SlotWord (xs ++ ys) := by
  refine ⟨by simp [hy.ne_nil], fun c hc => ?_⟩
  rcases List.mem_append.1 hc with hc | hc
  · exact hx c hc
  · exact hy.chars c hc

theorem SlotWord.digits (n : Nat) : SlotWord (Nat.toDigits 10 n) :=
  ⟨Nat.toDigits_ne_nil, fun _ hc =>
    mem_slotChars_of_isDigit (Nat.isDigit_of_mem_toDigits (by decide) (by decide) hc)⟩

theorem SlotWord.int (n : Int64) : SlotWord (Value.intText n).toList := by
  rw [Value.intText, Int.toString_eq_repr]
  cases n.toInt with
  | ofNat m =>
      rw [Int.repr, Nat.toList_repr]
      exact SlotWord.digits m
  | negSucc m =>
      rw [Int.repr, String.toList_append, Nat.toList_repr]
      exact SlotWord.append (by decide) (SlotWord.digits _)

theorem SlotWord.zeros_append {n : Nat} {ds : List Char} (h : SlotWord ds) :
    SlotWord (Layout.zeros n ++ ds) := by
  refine SlotWord.append (fun c hc => ?_) h
  rw [Layout.zeros, List.mem_replicate] at hc
  rw [hc.2]
  decide

/-- Placing a point keeps to the characters of slots. -/
theorem SlotWord.placePoint {ds : List Char} (h : SlotWord ds) (point : Int) :
    SlotWord (Layout.placePoint false ds point) := by
  unfold Layout.placePoint
  split
  · -- all digits stand behind the point
    have hfront : ∀ c ∈ ['0', '.'], c ∈ slotChars := by decide
    exact SlotWord.append hfront h.zeros_append
  · split
    · -- the point stands among the digits
      have hdrop : ∀ c ∈ ds.take point.toNat, c ∈ slotChars :=
        fun c hc => h.chars c (List.mem_of_mem_take hc)
      refine SlotWord.append hdrop ⟨by simp, fun c hc => ?_⟩
      rcases List.mem_cons.1 hc with rfl | hc
      · decide
      · exact h.chars c (List.mem_of_mem_drop hc)
    · refine ⟨by simp [h.ne_nil], fun c hc => ?_⟩
      simp only [Bool.false_eq_true, if_false, List.append_nil, List.mem_append, Layout.zeros,
        List.mem_replicate] at hc
      rcases hc with hc | ⟨-, rfl⟩
      · exact h.chars c hc
      · decide

theorem SlotWord.ofDecimal (d : Decimal) : SlotWord (Layout.plain.ofDecimal d) := by
  unfold Layout.ofDecimal
  split
  · decide
  · exact (SlotWord.digits d.digits).placePoint _

theorem SlotWord.float (x : Binary64) : SlotWord x.text.toList := by
  unfold Binary64.text
  split
  · decide
  · split
    · rw [String.toList_ofList, Layout.finite]
      refine SlotWord.append (fun c hc => ?_) (SlotWord.ofDecimal _)
      split at hc
      · obtain rfl := List.mem_singleton.1 hc
        decide
      · simp at hc
    · split <;> decide

/-! ## Slots -/

/-- A placeholder is a sign, behind which the engine may ask for a number. -/
theorem Dialect.toList_placeholder (d : Dialect) (index : Nat) :
    (d.placeholder index).toList = match d with
      | .postgres => '$' :: Nat.toDigits 10 index
      | .sqlServer => '@' :: 'p' :: Nat.toDigits 10 index
      | .generic | .mySql | .sqlite => ['?'] := by
  cases d <;> simp [placeholder, toString]

theorem SlotWord.placeholder (d : Dialect) (index : Nat) :
    SlotWord (d.placeholder index).toList := by
  rw [d.toList_placeholder]
  cases d with
  | postgres =>
      have hfront : ∀ c ∈ ['$'], c ∈ slotChars := by decide
      exact SlotWord.append hfront (SlotWord.digits index)
  | sqlServer =>
      have hfront : ∀ c ∈ ['@', 'p'], c ∈ slotChars := by decide
      exact SlotWord.append hfront (SlotWord.digits index)
  | generic | mySql | sqlite =>
      show SlotWord ['?']
      decide

/-- A literal is a quoted string or a slot word. -/
theorem SlotWord.literal (d : Dialect) {v : Value} (h : ∀ s, v ≠ .text s) :
    SlotWord (d.literal v).toList := by
  cases v with
  | null =>
      show SlotWord "NULL".toList
      decide
  | bool b => cases d <;> cases b <;> decide
  | int n => exact SlotWord.int n
  | float x => exact SlotWord.float x
  | text s => exact absurd rfl (h s)

/-- What is written for a value that `k` values stand before. -/
def Rendering.slot (r : Rendering) (k : Nat) (v : Value) : List Char :=
  match r.mode with
  | .bound => (r.dialect.placeholder (k + 1)).toList
  | .inline => (r.dialect.literal v).toList

/-- A slot is a quoted string or a slot word. -/
theorem Rendering.slot_cases (r : Rendering) (k : Nat) (v : Value) :
    (∃ s, r.slot k v = Text.Quoted.encode s) ∨ SlotWord (r.slot k v) := by
  unfold slot
  split
  · exact .inr (SlotWord.placeholder _ _)
  · cases v with
    | text s => exact .inl ⟨s.toList, Text.Quoted.toList_quote s⟩
    | _ => exact .inr (SlotWord.literal _ fun s => Value.noConfusion)

/-- The characters of slot words are neither quotes nor blank. -/
theorem ne_of_mem_slotChars :
    ∀ c ∈ slotChars, c ≠ '\'' ∧ Text.isBlank c = false := by
  decide

theorem SlotWord.not_mem_quote {cs : List Char} (h : SlotWord cs) : '\'' ∉ cs :=
  fun hq => (ne_of_mem_slotChars _ (h.chars _ hq)).1 rfl

/-! ## How slots are read -/

/-- A slot holds something. -/
theorem Rendering.slot_ne_nil (r : Rendering) (k : Nat) (v : Value) : r.slot k v ≠ [] := by
  rcases r.slot_cases k v with ⟨s, hs⟩ | hw
  · simp [hs, Text.Quoted.encode]
  · exact hw.ne_nil

/-- A slot is balanced. -/
@[simp] theorem Rendering.insideAfter_slot (r : Rendering) (k : Nat) (v : Value) :
    Text.insideAfter false (r.slot k v) = false := by
  rcases r.slot_cases k v with ⟨s, hs⟩ | hw
  · rw [hs, Text.insideAfter_encode]
  · exact Text.insideAfter_of_not_mem hw.not_mem_quote false

/-- A slot neither begins nor ends with a blank. -/
theorem Rendering.trimmed_slot (r : Rendering) (k : Nat) (v : Value) :
    Text.Trimmed Text.isBlank (r.slot k v) := by
  rcases r.slot_cases k v with ⟨s, hs⟩ | hw
  · rw [hs, Text.Quoted.encode]
    constructor
    · intro c hc
      obtain rfl : '\'' = c := by simpa using hc
      decide
    · intro c hc
      rw [← List.cons_append, List.getLast?_concat] at hc
      obtain rfl : '\'' = c := by simpa using hc
      decide
  · exact ⟨fun c hc => (ne_of_mem_slotChars c (hw.chars c (List.mem_of_mem_head? hc))).2,
      fun c hc => (ne_of_mem_slotChars c (hw.chars c (List.mem_of_getLast? hc))).2⟩

/-- Collapsing blanks leaves a slot alone, and what follows it does not follow a space. -/
theorem Rendering.squeezeText_slot (r : Rendering) (k : Nat) (v : Value) (afterSpace : Bool)
    (cs : List Char) :
    Fragment.squeezeText false afterSpace (r.slot k v ++ cs) =
      r.slot k v ++ Fragment.squeezeText false false cs := by
  rcases r.slot_cases k v with ⟨s, hs⟩ | hw
  · rw [hs, Fragment.squeezeText_encode]
  · exact Fragment.squeezeText_solid hw.ne_nil
      (fun c hc => ne_of_mem_slotChars c (hw.chars c hc)) afterSpace cs

/-- Outside its literals a slot has only the characters of slot words. -/
theorem Rendering.signs_slot (r : Rendering) (k : Nat) (v : Value) :
    ∀ c ∈ Text.signs false (r.slot k v), c ∈ slotChars := by
  intro c hc
  rcases r.slot_cases k v with ⟨s, hs⟩ | hw
  · rw [hs, Text.signs_encode] at hc
    simp at hc
  · exact hw.chars c (Text.mem_of_mem_signs hc)

end SelectSql
