import SelectSql.Proofs.Quotes

/-!
# SelectSql.Proofs.Tokens

SQL text as a sequence of tokens: words, the characters of literals, and other
characters one by one. A word is a longest run of name characters outside literals.

Design points:

* **Cutting into tokens loses nothing** (`chars_lex`) and tracks the parity of quotes
  like `Text.insideAfter`.
* **Texts are put together at signs.** Where a character stands that is neither part of
  a name nor a quote, both sides are cut by themselves (`lex_append_sign`).
* **Parentheses are counted outside literals** (`Text.depthAfter`), on the tokens and
  on the signs of a text alike (`depthAfter_lex`).
-/

namespace SelectSql

open Text (toggle insideAfter)

/-- A token of SQL text. -/
inductive Token
  /-- A longest run of name characters. -/
  | word (w : List Char)
  /-- A character of a literal, its quotes included. -/
  | quoted (c : Char)
  /-- Any other character. -/
  | sign (c : Char)
deriving DecidableEq

namespace Token

/-- The characters of a token. -/
def chars : Token → List Char
  | .word w => w
  | .quoted c => [c]
  | .sign c => [c]

/-- Whether a token is a blank outside literals. -/
def isBlank : Token → Bool
  | .sign c => Text.isBlank c
  | _ => false

/-- Whether a token is a keyword, in upper or lower case. -/
def isKeyword (keyword : String) : Token → Bool
  | .word w => w.map Char.toUpper = keyword.toList
  | _ => false

end Token

/-! ## Cutting text into tokens -/

/-- Puts a name character in front of tokens. -/
def consWord (c : Char) : List Token → List Token
  | .word w :: ts => .word (c :: w) :: ts
  | ts => .word [c] :: ts

/-- The tokens of a text. -/
def lex : (inside : Bool) → List Char → List Token
  | _, [] => []
  | inside, c :: cs =>
    if inside || c == '\'' then .quoted c :: lex (toggle inside c) cs
    else if Text.isNameChar c then consWord c (lex false cs)
    else .sign c :: lex false cs

@[simp] theorem lex_nil (inside : Bool) : lex inside [] = [] := rfl

theorem consWord_cases (c : Char) (ts : List Token) :
    (∃ w us, ts = .word w :: us ∧ consWord c ts = .word (c :: w) :: us) ∨
      consWord c ts = .word [c] :: ts := by
  match ts with
  | .word w :: us => exact .inl ⟨w, us, rfl, rfl⟩
  | [] => exact .inr rfl
  | .quoted d :: us => exact .inr rfl
  | .sign d :: us => exact .inr rfl

/-- Cutting a text into tokens loses nothing. -/
theorem chars_lex (inside : Bool) (cs : List Char) :
    (lex inside cs).flatMap Token.chars = cs := by
  induction cs generalizing inside with
  | nil => rfl
  | cons c cs ih =>
      rw [lex]
      split
      · rw [List.flatMap_cons, ih]
        rfl
      · split
        · have hrest := ih false
          rcases consWord_cases c (lex false cs) with ⟨w, us, hts, hword⟩ | hword
          · rw [hts, List.flatMap_cons] at hrest
            rw [hword, List.flatMap_cons, ← hrest]
            rfl
          · rw [hword, List.flatMap_cons, hrest]
            rfl
        · rw [List.flatMap_cons, ih]
          rfl

theorem consWord_append_sign (c d : Char) (ts us : List Token) :
    consWord c (ts ++ .sign d :: us) = consWord c ts ++ .sign d :: us := by
  match ts with
  | .word w :: ts => rfl
  | [] => rfl
  | .quoted e :: ts => rfl
  | .sign e :: ts => rfl

/-- A character that is neither part of a name nor a quote. -/
structure IsSign (c : Char) : Prop where
  ne_quote : c ≠ '\''
  not_name : Text.isNameChar c = false

theorem isSign_of_isBlank {c : Char} (h : Text.isBlank c = true) : IsSign c where
  ne_quote := Text.ne_quote_of_isBlank h
  not_name := by
    cases hname : Text.isNameChar c with
    | false => rfl
    | true =>
        rw [Text.isBlank_of_isNameChar hname] at h
        contradiction

theorem lex_sign {c : Char} (h : IsSign c) (cs : List Char) :
    lex false (c :: cs) = .sign c :: lex false cs := by
  simp [lex, h.ne_quote, h.not_name]

/-- Behind a balanced text a sign separates what stands before it from what follows. -/
theorem lex_append_sign {c : Char} (h : IsSign c) {inside : Bool} {xs : List Char}
    (hxs : insideAfter inside xs = false) (ys : List Char) :
    lex inside (xs ++ c :: ys) = lex inside xs ++ .sign c :: lex false ys := by
  induction xs generalizing inside with
  | nil =>
      obtain rfl : inside = false := hxs
      exact lex_sign h ys
  | cons d xs ih =>
      rw [List.cons_append, lex, lex]
      split
      · rw [ih hxs, List.cons_append]
      · next hd =>
        simp only [Bool.or_eq_true, beq_iff_eq, not_or, Bool.not_eq_true] at hd
        obtain ⟨rfl, hquote⟩ := hd
        rw [Text.insideAfter_cons, Text.toggle_of_ne hquote] at hxs
        rw [ih hxs]
        split
        · exact consWord_append_sign _ _ _ _
        · rfl

/-- Blanks in front of a text are tokens by themselves. -/
theorem lex_blanks_append {front : List Char} (h : ∀ c ∈ front, Text.isBlank c = true)
    (cs : List Char) : lex false (front ++ cs) = front.map .sign ++ lex false cs := by
  induction front with
  | nil => rfl
  | cons c front ih =>
      have hc := isSign_of_isBlank (h c (by simp))
      rw [List.cons_append, lex_sign hc, ih fun d hd => h d (by simp [hd])]
      rfl

/-- Blanks behind a balanced text are tokens by themselves. -/
theorem lex_append_blanks {back : List Char} (h : ∀ c ∈ back, Text.isBlank c = true)
    {cs : List Char} (hcs : insideAfter false cs = false) :
    lex false (cs ++ back) = lex false cs ++ back.map .sign := by
  cases back with
  | nil => simp
  | cons c back =>
      have hc := isSign_of_isBlank (h c (by simp))
      have hback : lex false back = back.map .sign := by
        simpa using lex_blanks_append (fun d hd => h d (List.mem_cons_of_mem c hd)) []
      rw [lex_append_sign hc hcs, hback]
      rfl

/-- A text without blanks at its ends has no blank tokens at its ends. -/
theorem trimmed_lex {cs : List Char} (h : Text.Trimmed Text.isBlank cs) (inside : Bool) :
    Text.Trimmed Token.isBlank (lex inside cs) := by
  have hchars := chars_lex inside cs
  constructor
  · intro t ht
    obtain ⟨ts, hts⟩ := List.head?_eq_some_iff.1 ht
    rw [hts, List.flatMap_cons] at hchars
    cases t with
    | sign c => exact h.head c (by simp [← hchars, Token.chars])
    | _ => rfl
  · intro t ht
    obtain ⟨ts, hts⟩ := List.getLast?_eq_some_iff.1 ht
    rw [hts, List.flatMap_append, List.flatMap_singleton] at hchars
    cases t with
    | sign c => exact h.last c (by simp [← hchars, Token.chars])
    | _ => rfl

/-! ## Words -/

/-- A word behind a name character in front of tokens: it begins with that character, or
stood there before. -/
theorem mem_consWord {c : Char} {w : List Char} {ts : List Token}
    (h : .word w ∈ consWord c ts) :
    w = [c] ∨ (∃ v, .word v ∈ ts ∧ w = c :: v) ∨ .word w ∈ ts := by
  rcases consWord_cases c ts with ⟨v, us, rfl, hword⟩ | hword
  · rw [hword] at h
    rcases List.mem_cons.1 h with h | h
    · exact .inr (.inl ⟨v, List.mem_cons_self, by simpa using h⟩)
    · exact .inr (.inr (List.mem_cons_of_mem _ h))
  · rw [hword] at h
    rcases List.mem_cons.1 h with h | h
    · exact .inl (by simpa using h)
    · exact .inr (.inr h)

/-- The characters of words are signs of the text: they are outside literals, and no name
character is blank. -/
theorem mem_signs_of_word {inside : Bool} {cs : List Char} {w : List Char} {c : Char}
    (hw : .word w ∈ lex inside cs) (hc : c ∈ w) : c ∈ Text.signs inside cs := by
  induction cs generalizing inside w with
  | nil => simp at hw
  | cons d cs ih =>
      rw [lex] at hw
      rw [Text.signs_cons]
      split at hw
      · next hd =>
        have hskip : (inside || d == '\'' || Text.isBlank d) = true := by simp [hd]
        rw [if_pos hskip]
        rcases List.mem_cons.1 hw with hw | hw
        · simp at hw
        · exact ih hw hc
      · next hd =>
        simp only [Bool.or_eq_true, beq_iff_eq, not_or, Bool.not_eq_true] at hd
        obtain ⟨rfl, hquote⟩ := hd
        rw [Text.toggle_of_ne hquote]
        split at hw
        · next hname =>
          have hkeep : ¬ (false || d == '\'' || Text.isBlank d) = true := by
            simp [hquote, Text.isBlank_of_isNameChar hname]
          rw [if_neg hkeep]
          rcases mem_consWord hw with rfl | ⟨v, hv, rfl⟩ | hw
          · exact List.mem_cons.2 (.inl (List.mem_singleton.1 hc))
          · rcases List.mem_cons.1 hc with rfl | hc
            · exact List.mem_cons_self
            · exact List.mem_cons_of_mem _ (ih hv hc)
          · exact List.mem_cons_of_mem _ (ih hw hc)
        · have hrest : c ∈ Text.signs false cs := by
            rcases List.mem_cons.1 hw with hw | hw
            · simp at hw
            · exact ih hw hc
          split
          · exact hrest
          · exact List.mem_cons_of_mem _ hrest

/-! ## Parentheses -/

namespace Text

/-- How many parentheses are open behind a text, if none is closed that is not open. -/
def depthAfter : Nat → List Char → Option Nat
  | n, [] => some n
  | n, c :: cs =>
    if c = '(' then depthAfter (n + 1) cs
    else if c = ')' then (if n = 0 then none else depthAfter (n - 1) cs)
    else depthAfter n cs

/-- The parentheses of a text are well nested. -/
def Nested (cs : List Char) : Prop :=
  depthAfter 0 cs = some 0

instance (cs : List Char) : Decidable (Nested cs) :=
  inferInstanceAs (Decidable (_ = _))

theorem depthAfter_append (n : Nat) (xs ys : List Char) :
    depthAfter n (xs ++ ys) = (depthAfter n xs).bind (depthAfter · ys) := by
  induction xs generalizing n with
  | nil => rfl
  | cons c xs ih =>
      rw [List.cons_append, depthAfter, depthAfter]
      split
      · exact ih _
      · split
        · split
          · rfl
          · exact ih _
        · exact ih _

/-- More open parentheses before a text are still open behind it. -/
theorem depthAfter_add {n m : Nat} {cs : List Char} (h : depthAfter n cs = some m) (j : Nat) :
    depthAfter (n + j) cs = some (m + j) := by
  induction cs generalizing n with
  | nil =>
      obtain rfl : n = m := by simpa [depthAfter] using h
      rfl
  | cons c cs ih =>
      rw [depthAfter] at h ⊢
      split at h
      · next hc =>
        rw [if_pos hc, Nat.add_right_comm]
        exact ih h
      · next hc =>
        rw [if_neg hc]
        split at h
        · next hc =>
          split at h
          · simp at h
          · next hn =>
            have hn' : n + j ≠ 0 := by omega
            have hsub : n + j - 1 = n - 1 + j := by omega
            rw [if_pos hc, if_neg hn', hsub]
            exact ih h
        · next hc =>
          rw [if_neg hc]
          exact ih h

theorem Nested.depthAfter {cs : List Char} (h : Nested cs) (n : Nat) :
    depthAfter n cs = some n := by
  have hadd := depthAfter_add h n
  rwa [Nat.zero_add] at hadd

theorem Nested.append {xs ys : List Char} (hx : Nested xs) (hy : Nested ys) :
    Nested (xs ++ ys) := by
  rw [Nested, depthAfter_append, hx]
  exact hy

theorem Nested.parens {xs : List Char} (h : Nested xs) : Nested ('(' :: (xs ++ [')'])) := by
  rw [Nested, Text.depthAfter, if_pos rfl, depthAfter_append, h.depthAfter]
  rfl

/-- Without parentheses the depth does not change. -/
theorem nested_of_not_mem {cs : List Char} (h : ∀ c ∈ cs, c ≠ '(' ∧ c ≠ ')') : Nested cs := by
  induction cs with
  | nil => rfl
  | cons c cs ih =>
      obtain ⟨hopen, hclose⟩ := h c (by simp)
      rw [Nested, Text.depthAfter, if_neg hopen, if_neg hclose]
      exact ih fun d hd => h d (by simp [hd])

theorem ne_paren_of_isBlank {c : Char} (h : isBlank c = true) : c ≠ '(' ∧ c ≠ ')' := by
  constructor
  · rintro rfl
    exact absurd h (by decide)
  · rintro rfl
    exact absurd h (by decide)

theorem ne_paren_of_isNameChar {c : Char} (h : isNameChar c = true) : c ≠ '(' ∧ c ≠ ')' := by
  constructor
  · rintro rfl
    exact absurd h (by decide)
  · rintro rfl
    exact absurd h (by decide)

/-- In a text without quotes the signs are nested like the text. -/
theorem depthAfter_signs {cs : List Char} (h : '\'' ∉ cs) (n : Nat) :
    Text.depthAfter n (signs false cs) = Text.depthAfter n cs := by
  induction cs generalizing n with
  | nil => rfl
  | cons c cs ih =>
      have hquote : c ≠ '\'' := fun e => h (by simp [e])
      have hcs := ih fun e => h (by simp [e])
      rw [signs_cons, toggle_of_ne hquote]
      split
      · next hblank =>
        have hb : isBlank c = true := by simpa [hquote] using hblank
        obtain ⟨hopen, hclose⟩ := ne_paren_of_isBlank hb
        rw [Text.depthAfter, if_neg hopen, if_neg hclose, hcs]
      · rw [Text.depthAfter, Text.depthAfter]
        simp only [hcs]

end Text

/-- How many parentheses are open behind tokens. -/
def Token.depthAfter : Nat → List Token → Option Nat
  | n, [] => some n
  | n, t :: ts =>
    if t = .sign '(' then Token.depthAfter (n + 1) ts
    else if t = .sign ')' then (if n = 0 then none else Token.depthAfter (n - 1) ts)
    else Token.depthAfter n ts

theorem Token.depthAfter_consWord (n : Nat) (c : Char) (ts : List Token) :
    Token.depthAfter n (consWord c ts) = Token.depthAfter n ts := by
  rcases consWord_cases c ts with ⟨w, us, hts, hword⟩ | hword
  · rw [hword, hts]
    rfl
  · rw [hword]
    rfl

/-- Tokens are nested like the signs of their text. -/
theorem depthAfter_lex (n : Nat) (inside : Bool) (cs : List Char) :
    Token.depthAfter n (lex inside cs) = Text.depthAfter n (Text.signs inside cs) := by
  induction cs generalizing n inside with
  | nil => rfl
  | cons c cs ih =>
      rw [lex, Text.signs_cons]
      split
      · next hc =>
        have hskip : (inside || c == '\'' || Text.isBlank c) = true := by simp [hc]
        rw [if_pos hskip]
        exact ih n _
      · next hc =>
        simp only [Bool.or_eq_true, beq_iff_eq, not_or, Bool.not_eq_true] at hc
        obtain ⟨rfl, hquote⟩ := hc
        rw [Text.toggle_of_ne hquote]
        split
        · next hname =>
          have hkeep : ¬ (false || c == '\'' || Text.isBlank c) = true := by
            simp [hquote, Text.isBlank_of_isNameChar hname]
          obtain ⟨hopen, hclose⟩ := Text.ne_paren_of_isNameChar hname
          rw [if_neg hkeep, Token.depthAfter_consWord, Text.depthAfter, if_neg hopen,
            if_neg hclose]
          exact ih n false
        · cases hb : Text.isBlank c with
          | true =>
              obtain ⟨hopen, hclose⟩ := Text.ne_paren_of_isBlank hb
              simp [Token.depthAfter, hopen, hclose, ih]
          | false =>
              simp only [Token.depthAfter, Text.depthAfter, hquote, ih, Token.sign.injEq,
                Bool.false_or, Bool.or_false, beq_iff_eq, if_false]

end SelectSql
