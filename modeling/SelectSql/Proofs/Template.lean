import SelectSql.Proofs.Slot

/-!
# SelectSql.Proofs.Template

A text with places for values. Rendering a template puts a slot into every place:
a numbered placeholder or a literal, as the mode says. The same template therefore
stands for the bound and for the inline text of a statement.

Main statements: trimming commutes with rendering (`trimChars_render`), and so does
collapsing blanks, on templates whose quotes are balanced and which hold no value
inside a literal (`collapseChars_render`).
-/

namespace SelectSql

/-- A character of a text, or the place of a value. -/
inductive Symbol
  | char (c : Char)
  | value (v : Value)
deriving DecidableEq

/-- A text with places for values. -/
abbrev Template := List Symbol

namespace Template

open Text (toggle insideAfter)

/-- The template of a text without values. -/
def ofChars (cs : List Char) : Template :=
  cs.map .char

/-- The values of a template in order. -/
def values (t : Template) : List Value :=
  t.filterMap fun
    | .value v => some v
    | .char _ => none

/-- The text of a template behind `k` values. -/
def render (r : Rendering) : Nat → Template → List Char
  | _, [] => []
  | k, .char c :: t => c :: render r k t
  | k, .value v :: t => r.slot k v ++ render r (k + 1) t

@[simp] theorem ofChars_cons (c : Char) (cs : List Char) :
    ofChars (c :: cs) = .char c :: ofChars cs := rfl

@[simp] theorem values_nil : values [] = [] := rfl

@[simp] theorem values_char (c : Char) (t : Template) : values (.char c :: t) = values t := rfl

@[simp] theorem values_value (v : Value) (t : Template) :
    values (.value v :: t) = v :: values t := rfl

@[simp] theorem values_append (s t : Template) : values (s ++ t) = values s ++ values t :=
  List.filterMap_append

@[simp] theorem values_ofChars (cs : List Char) : values (ofChars cs) = [] := by
  induction cs with
  | nil => rfl
  | cons c cs ih => exact ih

@[simp] theorem render_nil (r : Rendering) (k : Nat) : render r k [] = [] := rfl

@[simp] theorem render_append (r : Rendering) (k : Nat) (s t : Template) :
    render r k (s ++ t) = render r k s ++ render r (k + (values s).length) t := by
  induction s generalizing k with
  | nil => rfl
  | cons x s ih =>
      cases x with
      | char c => simp [render, ih]
      | value v => simp [render, ih, Nat.add_assoc, Nat.add_comm 1]

@[simp] theorem render_ofChars (r : Rendering) (k : Nat) (cs : List Char) :
    render r k (ofChars cs) = cs := by
  induction cs with
  | nil => rfl
  | cons c cs ih => simp [render, ih]

/-- Only a template without symbols renders to nothing. -/
theorem render_eq_nil {r : Rendering} {k : Nat} {t : Template} :
    render r k t = [] ↔ t = [] := by
  cases t with
  | nil => simp
  | cons x t => cases x <;> simp [render, r.slot_ne_nil]

/-! ## Closed templates -/

/-- The side of a literal's border behind a template; nothing if a value is inside. -/
def sideAfter : (inside : Bool) → Template → Option Bool
  | inside, [] => some inside
  | inside, .char c :: t => sideAfter (toggle inside c) t
  | inside, .value _ :: t => if inside then none else sideAfter false t

/-- The quotes are balanced and all values are outside literals. -/
def Closed (t : Template) : Prop :=
  sideAfter false t = some false

theorem sideAfter_append (inside : Bool) (s t : Template) :
    sideAfter inside (s ++ t) = (sideAfter inside s).bind (sideAfter · t) := by
  induction s generalizing inside with
  | nil => rfl
  | cons x s ih =>
      cases x with
      | char c => exact ih _
      | value v => cases inside <;> simp [sideAfter, ih]

theorem Closed.append {s t : Template} (hs : Closed s) (ht : Closed t) : Closed (s ++ t) := by
  rw [Closed, sideAfter_append, hs]
  exact ht

theorem Closed.nil : Closed [] := rfl

theorem Closed.value (v : Value) : Closed [.value v] := rfl

theorem sideAfter_ofChars (inside : Bool) (cs : List Char) :
    sideAfter inside (ofChars cs) = some (insideAfter inside cs) := by
  induction cs generalizing inside with
  | nil => rfl
  | cons c cs ih => exact ih _

theorem Closed.ofChars {cs : List Char} (h : insideAfter false cs = false) :
    Closed (ofChars cs) := by
  rw [Closed, sideAfter_ofChars, h]

/-- Rendering keeps the side. -/
theorem insideAfter_render {r : Rendering} {k : Nat} {t : Template} {inside side : Bool}
    (h : sideAfter inside t = some side) : insideAfter inside (render r k t) = side := by
  induction t generalizing inside k with
  | nil => simpa [sideAfter] using h
  | cons x t ih =>
      cases x with
      | char c => exact ih h
      | value v =>
          cases inside with
          | true => simp [sideAfter] at h
          | false =>
              rw [render, Text.insideAfter_append, r.insideAfter_slot]
              exact ih h

theorem Closed.render {t : Template} (h : Closed t) (r : Rendering) (k : Nat) :
    insideAfter false (render r k t) = false :=
  insideAfter_render h

end Template

/-! ## Trimming -/

/-- A character that is blank. -/
def Symbol.isBlank : Symbol → Bool
  | .char c => Text.isBlank c
  | .value _ => false

namespace Template

open Text (toggle insideAfter)

/-- Drops the blank characters at both ends. -/
def trim (t : Template) : Template :=
  Text.trimBy Symbol.isBlank t

theorem exists_ofChars_of_blank {t : Template} (h : ∀ x ∈ t, x.isBlank = true) :
    ∃ cs, t = ofChars cs ∧ ∀ c ∈ cs, Text.isBlank c = true := by
  induction t with
  | nil => exact ⟨[], rfl, by simp⟩
  | cons x t ih =>
      obtain ⟨cs, rfl, hcs⟩ := ih fun y hy => h y (by simp [hy])
      have hx := h x (by simp)
      cases x with
      | char c => exact ⟨c :: cs, rfl, by simpa using ⟨hx, hcs⟩⟩
      | value v => simp [Symbol.isBlank] at hx

/-- A trimmed template renders to a trimmed text, since slots are trimmed. -/
theorem trimmed_render {t : Template} (h : Text.Trimmed Symbol.isBlank t) (r : Rendering)
    (k : Nat) : Text.Trimmed Text.isBlank (render r k t) := by
  constructor
  · cases t with
    | nil => simp
    | cons x t =>
        have hx := h.head x rfl
        intro c hc
        cases x with
        | char d =>
            obtain rfl : d = c := by simpa [render] using hc
            exact hx
        | value v =>
            obtain ⟨d, l, hd⟩ := List.exists_cons_of_ne_nil (r.slot_ne_nil k v)
            have hslot := (r.trimmed_slot k v).head
            rw [hd] at hslot
            rw [render, hd] at hc
            exact hslot c hc
  · rcases List.eq_nil_or_concat t with rfl | ⟨t, x, rfl⟩
    · simp
    · rw [List.concat_eq_append] at h ⊢
      have hx := h.last x (by simp)
      intro c hc
      rw [render_append] at hc
      cases x with
      | char d =>
          obtain rfl : d = c := by simpa [render] using hc
          exact hx
      | value v =>
          -- the slot is not empty, so the text ends where the slot does
          rw [render, render_nil, List.append_nil, List.getLast?_append] at hc
          cases hl : (r.slot (k + (values t).length) v).getLast? with
          | none => exact absurd (List.getLast?_eq_none_iff.1 hl) (r.slot_ne_nil _ v)
          | some d =>
              rw [hl, Option.some_or] at hc
              exact (r.trimmed_slot _ v).last c (hl.trans hc)

/-- A template is its trimmed form between runs of blank characters. -/
theorem exists_trim (t : Template) :
    ∃ front back : List Char, t = ofChars front ++ trim t ++ ofChars back ∧
      (∀ c ∈ front, Text.isBlank c = true) ∧ (∀ c ∈ back, Text.isBlank c = true) ∧
      Text.Trimmed Symbol.isBlank (trim t) := by
  obtain ⟨front, back, heq, hfront, hback, htrim⟩ := Text.exists_trimBy Symbol.isBlank t
  obtain ⟨fs, rfl, hfs⟩ := exists_ofChars_of_blank hfront
  obtain ⟨bs, rfl, hbs⟩ := exists_ofChars_of_blank hback
  exact ⟨fs, bs, heq, hfs, hbs, htrim⟩

/-- Trimming commutes with rendering. -/
theorem trimChars_render (r : Rendering) (k : Nat) (t : Template) :
    Text.trimChars (render r k t) = render r k (trim t) := by
  obtain ⟨front, back, heq, hfront, hback, htrim⟩ := exists_trim t
  have hsplit : render r k t = front ++ render r k (trim t) ++ back :=
    (congrArg (render r k) heq).trans (by simp)
  rw [hsplit, Text.trimChars_eq_trimBy]
  exact Text.trimBy_append hfront hback (trimmed_render htrim r k)

/-- Trimming drops no value. -/
@[simp] theorem values_trim (t : Template) : values (trim t) = values t := by
  obtain ⟨front, back, heq, -⟩ := exists_trim t
  exact ((congrArg values heq).trans (by simp)).symm

/-- Trimming a closed template leaves it closed, since blanks are no quotes. -/
theorem Closed.trim {t : Template} (h : Closed t) : Closed (trim t) := by
  obtain ⟨front, back, heq, hfront, hback, -⟩ := exists_trim t
  have hside : ∀ {cs : List Char}, (∀ c ∈ cs, Text.isBlank c = true) → ∀ b,
      sideAfter b (Template.ofChars cs) = some b := by
    intro cs hcs b
    rw [sideAfter_ofChars, Text.insideAfter_of_blank hcs]
  rw [Closed, heq, sideAfter_append, sideAfter_append, hside hfront, Option.bind_some] at h
  cases hs : sideAfter false (Template.trim t) with
  | none => simp [hs] at h
  | some b =>
      rw [hs, Option.bind_some, hside hback] at h
      rw [Closed, hs, h]

/-! ## Collapsing blanks -/

/-- Writes one space for every run of blanks outside literals. -/
def squeeze : (inside afterSpace : Bool) → Template → Template
  | _, _, [] => []
  | inside, afterSpace, .char c :: t =>
    if !inside && Text.isBlank c then
      if afterSpace then squeeze inside true t else .char ' ' :: squeeze inside true t
    else .char c :: squeeze (toggle inside c) false t
  | inside, _, .value v :: t => .value v :: squeeze inside false t

/-- Collapses the runs of blanks outside literals and trims both ends. -/
def collapse (t : Template) : Template :=
  trim (squeeze false false t)

theorem squeezeText_render {r : Rendering} {k : Nat} {t : Template} {inside side : Bool}
    (afterSpace : Bool) (h : sideAfter inside t = some side) :
    Fragment.squeezeText inside afterSpace (render r k t) =
      render r k (squeeze inside afterSpace t) := by
  induction t generalizing inside afterSpace k with
  | nil => cases inside <;> rfl
  | cons x t ih =>
      cases x with
      | char c =>
          have hc : sideAfter (toggle inside c) t = some side := h
          rw [render, Fragment.squeezeText_cons, squeeze]
          split
          · next hb =>
            simp only [Bool.and_eq_true, Bool.not_eq_true'] at hb
            have hq : c ≠ '\'' := Text.ne_quote_of_isBlank hb.2
            rw [Text.toggle_of_ne hq] at hc
            split
            · exact ih true hc
            · rw [render, ih true hc]
          · rw [render, ih false hc]
      | value v =>
          -- no value is inside a literal, where its blanks would not stay as they are
          cases inside with
          | true => simp [sideAfter] at h
          | false => rw [render, r.squeezeText_slot, squeeze, render, ih false h]

/-- Collapsing blanks commutes with rendering. -/
theorem collapseChars_render {t : Template} (h : Closed t) (r : Rendering) (k : Nat) :
    Fragment.collapseChars (render r k t) = render r k (collapse t) := by
  rw [Fragment.collapseChars_eq (h.render r k), squeezeText_render false h, trimChars_render,
    collapse]

@[simp] theorem values_squeeze (inside afterSpace : Bool) (t : Template) :
    values (squeeze inside afterSpace t) = values t := by
  induction t generalizing inside afterSpace with
  | nil => cases inside <;> rfl
  | cons x t ih =>
      cases x with
      | char c =>
          rw [squeeze]
          split
          · split <;> simp [ih]
          · simp [ih]
      | value v => simp [squeeze, ih]

/-- Collapsing drops no value. -/
@[simp] theorem values_collapse (t : Template) : values (collapse t) = values t := by
  rw [collapse, values_trim, values_squeeze]

theorem sideAfter_squeeze (inside afterSpace : Bool) (t : Template) :
    sideAfter inside (squeeze inside afterSpace t) = sideAfter inside t := by
  induction t generalizing inside afterSpace with
  | nil => cases inside <;> rfl
  | cons x t ih =>
      cases x with
      | char c =>
          rw [squeeze]
          split
          · next hb =>
            simp only [Bool.and_eq_true, Bool.not_eq_true'] at hb
            have hq : c ≠ '\'' := Text.ne_quote_of_isBlank hb.2
            split
            · rw [ih, sideAfter, Text.toggle_of_ne hq]
            · rw [sideAfter, sideAfter, Text.toggle_of_ne hq, Text.toggle_of_ne (by decide), ih]
          · rw [sideAfter, sideAfter, ih]
      | value v => cases inside <;> simp [squeeze, sideAfter, ih]

theorem Closed.collapse {t : Template} (h : Closed t) : Closed (collapse t) := by
  refine Closed.trim ?_
  rw [Closed, sideAfter_squeeze]
  exact h

end Template

end SelectSql
