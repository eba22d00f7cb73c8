import Mathlib.Data.List.Chain
import SelectSql.Proofs.Scanning
import SelectSql.Proofs.Template

/-!
# SelectSql.Proofs.Legible

Text with its values written inline, read back. A template is **legible** if no quote of
its own stands in it and no two of its values touch; trimming and collapsing blanks keep it
so. What is written for a legible template is read back as the template itself, with the
values that are no texts spelled out.

Main statement: `Template.symbols_render`.
-/

namespace SelectSql

/-! ## Reading -/

/-- A segment as it is read: a literal is the text that it holds, anything else a row of
characters. -/
def Segment.symbols : Segment → Template
  | .literal content => [.value (.text (String.ofList content))]
  | s => Template.ofChars s.chars

namespace Fragment

/-- The characters outside the literals of a text, with the literals between them. -/
def symbols (cs : List Char) : Template :=
  (scan cs).flatMap Segment.symbols

theorem symbols_nil : symbols [] = [] := by
  rw [symbols, scan_nil, List.flatMap_nil]

theorem symbols_cons {c : Char} (h : c ≠ '\'') (cs : List Char) :
    symbols (c :: cs) = .char c :: symbols cs := by
  rcases scan_cases h cs with ⟨s, hs, hscan⟩ | ⟨name, rest, rfl, -, hscan, hrest⟩
  · rw [symbols, hscan, List.flatMap_cons]
    rcases hs with ⟨rfl, rfl⟩ | rfl <;> rfl
  · -- a table name is read as the characters that it was scanned from
    have hname : (name.map Segment.char).flatMap Segment.symbols = Template.ofChars name := by
      rw [List.flatMap_map]
      exact (List.map_eq_flatMap).symm
    rw [symbols, symbols, hscan, hrest, List.flatMap_cons, List.flatMap_append, hname,
      List.flatMap_cons]
    simp [Segment.symbols, Segment.chars, Template.ofChars]

/-- A text without quotes is read character by character. -/
theorem symbols_append {xs : List Char} (h : '\'' ∉ xs) (ys : List Char) :
    symbols (xs ++ ys) = Template.ofChars xs ++ symbols ys := by
  induction xs with
  | nil => rfl
  | cons c xs ih =>
      have hc : c ≠ '\'' := fun e => h (by simp [e])
      rw [List.cons_append, symbols_cons hc, ih fun e => h (by simp [e])]
      rfl

/-- A literal is read as the text that it was written for, unless a quote follows it. -/
theorem symbols_encode (s : List Char) {rest : List Char} (h : rest.head? ≠ some '\'') :
    symbols (Text.Quoted.encode s ++ rest) =
      .value (.text (String.ofList s)) :: symbols rest := by
  rw [symbols, scan_encode s h, List.flatMap_cons]
  rfl

/-- The values that are read are the contents of the literals. -/
theorem values_symbols (cs : List Char) :
    Template.values (symbols cs) =
      (literals (scan cs)).map fun content => .text (String.ofList content) := by
  rw [symbols, literals]
  induction scan cs with
  | nil => rfl
  | cons s ss ih =>
      rw [List.flatMap_cons, Template.values_append, ih]
      cases s <;> simp [Segment.symbols]

end Fragment

/-! ## Legible templates -/

/-- A place of a value. -/
def Symbol.IsValue : Symbol → Prop
  | .char _ => False
  | .value _ => True

namespace Template

/-- Two symbols that may stand one behind the other: not both are values. -/
def MayFollow (x y : Symbol) : Prop :=
  ¬ (x.IsValue ∧ y.IsValue)

/-- No quote stands in the template, and no two of its values touch. -/
structure Legible (t : Template) : Prop where
  unquoted : Symbol.char '\'' ∉ t
  apart : t.IsChain MayFollow

theorem mayFollow_char_left (c : Char) (y : Symbol) : MayFollow (.char c) y :=
  fun h => h.1

theorem mayFollow_char_right (x : Symbol) (c : Char) : MayFollow x (.char c) :=
  fun h => h.2

/-- A character stands behind anything. -/
theorem isChain_append_char {s t : Template} {c : Char} (hs : s.IsChain MayFollow)
    (ht : (.char c :: t).IsChain MayFollow) : (s ++ .char c :: t).IsChain MayFollow := by
  refine List.isChain_append.2 ⟨hs, ht, fun x _ y hy => ?_⟩
  obtain rfl : Symbol.char c = y := by simpa using hy
  exact mayFollow_char_right x c

theorem isChain_cons_char {t : Template} (c : Char) (ht : t.IsChain MayFollow) :
    (.char c :: t).IsChain MayFollow :=
  List.isChain_cons.2 ⟨fun y _ => mayFollow_char_left c y, ht⟩

theorem isChain_append_left {s t : Template} (hs : values s = []) (ht : t.IsChain MayFollow) :
    (s ++ t).IsChain MayFollow := by
  induction s with
  | nil => exact ht
  | cons x s ih =>
      cases x with
      | char c => exact isChain_cons_char c (ih hs)
      | value v => simp at hs

theorem isChain_append_right {s t : Template} (hs : s.IsChain MayFollow) (ht : values t = []) :
    (s ++ t).IsChain MayFollow := by
  cases t with
  | nil => rwa [List.append_nil]
  | cons x t =>
      cases x with
      | char c =>
          have ht' := isChain_append_left (t := []) (s := .char c :: t) ht List.isChain_nil
          rw [List.append_nil] at ht'
          exact isChain_append_char hs ht'
      | value v => simp at ht

namespace Legible

variable {s t : Template}

theorem nil : Legible [] :=
  ⟨by simp, List.isChain_nil⟩

theorem value (v : Value) : Legible [.value v] :=
  ⟨by simp, List.isChain_singleton _⟩

theorem ofChars {cs : List Char} (h : '\'' ∉ cs) : Legible (ofChars cs) where
  unquoted := by simpa [Template.ofChars] using h
  apart := by
    have hchain := isChain_append_left (t := []) (values_ofChars cs) List.isChain_nil
    rwa [List.append_nil] at hchain

theorem unquoted_append (hs : Legible s) (ht : Legible t) : Symbol.char '\'' ∉ s ++ t := by
  simp [hs.unquoted, ht.unquoted]

theorem append_left (hs : Legible s) (ht : Legible t) (h : values s = []) : Legible (s ++ t) :=
  ⟨hs.unquoted_append ht, isChain_append_left h ht.apart⟩

theorem append_right (hs : Legible s) (ht : Legible t) (h : values t = []) : Legible (s ++ t) :=
  ⟨hs.unquoted_append ht, isChain_append_right hs.apart h⟩

theorem append_char {c : Char} (hs : Legible s) (ht : Legible (.char c :: t)) :
    Legible (s ++ .char c :: t) :=
  ⟨hs.unquoted_append ht, isChain_append_char hs.apart ht.apart⟩

theorem cons_char {c : Char} (hc : c ≠ '\'') (ht : Legible t) : Legible (.char c :: t) where
  unquoted := by simp [hc.symm, ht.unquoted]
  apart := isChain_cons_char c ht.apart

/-- Trimming takes away characters at the ends only. -/
theorem trim (h : Legible t) : Legible (trim t) := by
  obtain ⟨front, back, heq, -⟩ := exists_trim t
  have hpart : Template.trim t <:+: t := ⟨Template.ofChars front, Template.ofChars back, heq.symm⟩
  exact ⟨fun hq => h.unquoted (hpart.subset hq), h.apart.infix hpart⟩

end Legible

/-! ## Collapsing -/

theorem eq_space_of_mem_squeeze {t : Template} {inside afterSpace : Bool} {c : Char}
    (h : Symbol.char c ∈ squeeze inside afterSpace t) : c = ' ' ∨ Symbol.char c ∈ t := by
  fun_induction squeeze inside afterSpace t with
  | case1 => exact .inr h
  | case2 inside d t hb ih => exact (ih h).imp_right (List.mem_cons_of_mem _)
  | case3 inside afterSpace d t hb ha ih =>
      rcases List.mem_cons.1 h with h | h
      · exact .inl (Symbol.char.inj h)
      · exact (ih h).imp_right (List.mem_cons_of_mem _)
  | case4 inside afterSpace d t hb ih =>
      rcases List.mem_cons.1 h with h | h
      · exact .inr (by simp [h])
      · exact (ih h).imp_right (List.mem_cons_of_mem _)
  | case5 inside afterSpace v t ih =>
      rcases List.mem_cons.1 h with h | h
      · exact nomatch h
      · exact (ih h).imp_right (List.mem_cons_of_mem _)

/-- Between two values a character stays: what a run of blanks becomes is not dropped unless
a space stands before it. -/
theorem isChain_squeeze {t : Template} {x : Symbol} (inside afterSpace : Bool)
    (h : (x :: t).IsChain MayFollow) (hx : afterSpace = true → ∃ c, x = .char c) :
    (x :: squeeze inside afterSpace t).IsChain MayFollow := by
  fun_induction squeeze inside afterSpace t generalizing x with
  | case1 => exact List.isChain_singleton x
  | case2 inside d t hb ih =>
      obtain ⟨c, rfl⟩ := hx rfl
      have ht := (List.isChain_cons_cons.1 h).2
      have ht' : (Symbol.char c :: t).IsChain MayFollow := isChain_cons_char c ht.tail
      exact ih ht' fun _ => ⟨c, rfl⟩
  | case3 inside afterSpace d t hb ha ih =>
      have ht := (List.isChain_cons_cons.1 h).2
      have ht' : (Symbol.char ' ' :: t).IsChain MayFollow := isChain_cons_char ' ' ht.tail
      exact List.isChain_cons_cons.2 ⟨mayFollow_char_right x ' ', ih ht' fun _ => ⟨' ', rfl⟩⟩
  | case4 inside afterSpace d t hb ih =>
      obtain ⟨-, ht⟩ := List.isChain_cons_cons.1 h
      exact List.isChain_cons_cons.2 ⟨mayFollow_char_right x d, ih ht fun _ => ⟨d, rfl⟩⟩
  | case5 inside afterSpace v t ih =>
      obtain ⟨hxv, ht⟩ := List.isChain_cons_cons.1 h
      exact List.isChain_cons_cons.2 ⟨hxv, ih ht Bool.noConfusion⟩

theorem Legible.collapse {t : Template} (h : Legible t) : Legible (collapse t) := by
  refine Legible.trim ⟨fun hq => ?_, ?_⟩
  · rcases eq_space_of_mem_squeeze hq with hq | hq
    · exact absurd hq (by decide)
    · exact h.unquoted hq
  · have hchain := isChain_squeeze (x := .char ' ') false false (isChain_cons_char ' ' h.apart)
      Bool.noConfusion
    exact hchain.tail

/-! ## Reading back -/

/-- What a symbol is read as once it is written inline: a text as itself, and any other
value as the characters of its literal. -/
def spell (d : Dialect) : Symbol → Template
  | .char c => [.char c]
  | .value (.text s) => [.value (.text s)]
  | .value v => ofChars (d.literal v).toList

/-- What begins a legible template that may follow a value is no quote. -/
theorem head?_render {t : Template} {v : Value} {r : Rendering} {k : Nat}
    (h : Legible (.value v :: t)) : (render r k t).head? ≠ some '\'' := by
  cases t with
  | nil => simp
  | cons x t =>
      cases x with
      | char c =>
          rintro hc
          obtain rfl : c = '\'' := by simpa [render] using hc
          exact h.unquoted (by simp)
      | value w => exact ((List.isChain_cons_cons.1 h.apart).1 ⟨trivial, trivial⟩).elim

/-- **What is written inline is read back**, if the template is legible. -/
theorem symbols_render {t : Template} (h : Legible t) (d : Dialect) (k : Nat) :
    Fragment.symbols (render ⟨d, .inline⟩ k t) = t.flatMap (spell d) := by
  induction t generalizing k with
  | nil => exact Fragment.symbols_nil
  | cons x t ih =>
      have ht : Legible t := ⟨fun hq => h.unquoted (List.mem_cons_of_mem x hq), h.apart.tail⟩
      rw [List.flatMap_cons]
      cases x with
      | char c =>
          have hc : c ≠ '\'' := fun e => h.unquoted (by simp [e])
          rw [render, Fragment.symbols_cons hc, ih ht]
          rfl
      | value v =>
          have hword (hv : ∀ s, v ≠ .text s) :
              Fragment.symbols (render ⟨d, .inline⟩ k (.value v :: t)) =
                ofChars (d.literal v).toList ++ t.flatMap (spell d) := by
            have hslot := SlotWord.literal d hv
            have hquote : '\'' ∉ (d.literal v).toList := fun hq =>
              (ne_of_mem_slotChars _ (hslot.chars _ hq)).1 rfl
            rw [← ih ht (k + 1)]
            exact Fragment.symbols_append hquote _
          cases v with
          | text s =>
              have hliteral : render ⟨d, .inline⟩ k (.value (.text s) :: t) =
                  Text.Quoted.encode s.toList ++ render ⟨d, .inline⟩ (k + 1) t :=
                congrArg (· ++ _) (Text.Quoted.toList_quote s)
              rw [hliteral, Fragment.symbols_encode _ (head?_render h), ih ht,
                String.ofList_toList]
              rfl
          | _ => exact hword fun s => Value.noConfusion

end Template

end SelectSql
