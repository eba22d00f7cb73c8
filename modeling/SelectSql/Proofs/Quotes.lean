import SelectSql.Fragment
import SelectSql.Proofs.Characters

/-!
# SelectSql.Proofs.Quotes

SQL text read by the **parity of its quotes**: a character is inside a literal
exactly if an odd number of quotes stands before it. The scanner of
`SelectSql.Fragment` reads ahead for the end of a literal instead; on a text whose
quotes are balanced both views agree, and the parity view is the one that composes:
what is behind a balanced text is read as if nothing stood before it.

Main statements:

* every segment of a balanced text is *sound* (`sound_scan`): it is balanced by
  itself, and no quote is left outside the literals;
* collapsing blanks is a walk over characters that tracks the parity
  (`collapseChars_eq`), and it keeps the characters outside literals, blanks apart
  (`signs_collapseChars`);
* the markers of a balanced text are its question marks outside literals
  (`markers_scan`).
-/

namespace SelectSql.Text

/-! ## Parity -/

/-- The side of a literal's border behind one character. -/
def toggle (inside : Bool) (c : Char) : Bool :=
  if c = '\'' then !inside else inside

/-- Whether the end of a text is inside a literal, given that of its beginning. -/
def insideAfter (inside : Bool) (cs : List Char) : Bool :=
  cs.foldl toggle inside

@[simp] theorem insideAfter_nil (b : Bool) : insideAfter b [] = b := rfl

@[simp] theorem insideAfter_cons (b : Bool) (c : Char) (cs : List Char) :
    insideAfter b (c :: cs) = insideAfter (toggle b c) cs := rfl

@[simp] theorem insideAfter_append (b : Bool) (xs ys : List Char) :
    insideAfter b (xs ++ ys) = insideAfter (insideAfter b xs) ys := by
  simp [insideAfter]

@[simp] theorem toggle_quote (b : Bool) : toggle b '\'' = !b := rfl

theorem toggle_of_ne {c : Char} (h : c ≠ '\'') (b : Bool) : toggle b c = b := by
  simp [toggle, h]

/-- Without a quote the side does not change. -/
theorem insideAfter_of_not_mem {cs : List Char} (h : '\'' ∉ cs) (b : Bool) :
    insideAfter b cs = b := by
  induction cs with
  | nil => rfl
  | cons c cs ih =>
      have hc : c ≠ '\'' := fun e => h (by simp [e])
      have hcs : '\'' ∉ cs := fun e => h (by simp [e])
      rw [insideAfter_cons, toggle_of_ne hc, ih hcs]

/-- A text has as many quotes that open a literal as quotes that close one. -/
def Balanced (cs : List Char) : Prop :=
  cs.count '\'' % 2 = 0

instance (cs : List Char) : Decidable (Balanced cs) :=
  inferInstanceAs (Decidable (_ = _))

/-- The side at the end is that of the beginning, turned around once for every quote. -/
theorem insideAfter_eq (b : Bool) (cs : List Char) :
    insideAfter b cs = (b ^^ decide (cs.count '\'' % 2 = 1)) := by
  induction cs generalizing b with
  | nil => simp
  | cons c cs ih =>
      rw [insideAfter_cons, ih]
      by_cases hc : c = '\''
      · -- a quote turns the side around and the parity with it
        subst hc
        rw [toggle_quote, List.count_cons_self]
        cases b <;> rcases Nat.mod_two_eq_zero_or_one (cs.count '\'') with h | h <;>
          simp [h, Nat.add_mod]
      · rw [toggle_of_ne hc, List.count_cons_of_ne hc]

/-- A text is balanced exactly if it leaves the side alone. -/
theorem balanced_iff {cs : List Char} : Balanced cs ↔ insideAfter false cs = false := by
  rw [insideAfter_eq, Balanced]
  rcases Nat.mod_two_eq_zero_or_one (cs.count '\'') with h | h <;> simp [h]

theorem balanced_of_not_mem {cs : List Char} (h : '\'' ∉ cs) : Balanced cs :=
  balanced_iff.2 (insideAfter_of_not_mem h false)

/-- Inside a literal, its doubled content leaves the side alone. -/
@[simp] theorem insideAfter_double (s : List Char) :
    insideAfter true (Quoted.double s) = true := by
  induction s with
  | nil => rfl
  | cons c s ih => by_cases hc : c = '\'' <;> simp [Quoted.double, toggle, hc, ih]

/-- A literal is balanced. -/
@[simp] theorem insideAfter_encode (s : List Char) :
    insideAfter false (Quoted.encode s) = false := by
  simp [Quoted.encode]

/-- A quote after which no literal ends stands in a text that is not balanced. -/
theorem insideAfter_of_body?_eq_none {cs : List Char} (h : Quoted.body? cs = none) :
    insideAfter true cs = true := by
  fun_induction Quoted.body? cs with
  | case1 => rfl
  -- a doubled quote leaves the literal and enters it again
  | case2 cs ih => simpa using ih (by simpa using h)
  | case3 cs => simp at h
  | case4 c cs hne hq ih =>
      have hc : c ≠ '\'' := fun e => hq e
      rw [insideAfter_cons, toggle_of_ne hc]
      exact ih (by simpa using h)

end SelectSql.Text

namespace SelectSql

open Text (toggle insideAfter Balanced)

/-! ## Segments of balanced texts -/

/-- What the segments of a balanced text are: a table name has only the characters of
names, and a character that stands alone is neither a quote nor a marker. -/
def Segment.Sound : Segment → Prop
  | .table name => ∀ c ∈ name, Text.isNameChar c = true
  | .char c => c ≠ '\'' ∧ c ≠ '?'
  | _ => True

namespace Fragment

/-- The characters of names are neither quotes nor markers. -/
theorem ne_of_isNameChar {c : Char} (h : Text.isNameChar c = true) : c ≠ '\'' ∧ c ≠ '?' := by
  constructor
  · rintro rfl
    exact absurd h (by decide)
  · rintro rfl
    exact absurd h (by decide)

theorem isNameChar_of_tableName? {cs name rest : List Char}
    (h : tableName? cs = some (name, rest)) : ∀ c ∈ name, Text.isNameChar c = true := by
  unfold tableName? at h
  split at h
  · next c n r hn hr =>
    obtain ⟨rfl, rfl⟩ := Prod.mk.inj (Option.some.inj h)
    intro d hd
    exact List.mem_takeWhile_imp (hn ▸ hd)
  · simp at h

/-- A table name stands between braces. -/
theorem mem_chars_table {name : List Char} {c : Char} (h : c ∈ (Segment.table name).chars) :
    c = '\x7b' ∨ c ∈ name ∨ c = '\x7d' := by
  simpa [Segment.chars] using h

/-- A sound segment is balanced by itself. -/
theorem insideAfter_chars {s : Segment} (h : s.Sound) : insideAfter false s.chars = false := by
  cases s with
  | literal content => exact Text.insideAfter_encode content
  | marker => rfl
  | table name =>
      refine Text.insideAfter_of_not_mem (fun hq => ?_) false
      rcases mem_chars_table hq with hq | hq | hq
      · exact absurd hq (by decide)
      · exact (ne_of_isNameChar (h _ hq)).1 rfl
      · exact absurd hq (by decide)
  | char c => exact Text.insideAfter_of_not_mem (by simpa [Segment.chars] using h.1.symm) false

/-- Outside a literal, the first segment of a balanced text is sound. -/
theorem sound_first {c : Char} {cs : List Char} (h : insideAfter false (c :: cs) = false) :
    (first c cs).1.Sound := by
  unfold first
  split
  · next hc =>
    subst hc
    split
    · trivial
    · next hbody =>
      -- the literal does not end, so the text is not balanced
      have hopen := Text.insideAfter_of_body?_eq_none hbody
      rw [Text.insideAfter_cons, Text.toggle_quote, Bool.not_false, hopen] at h
      contradiction
  · next hq =>
    split
    · next hc =>
      subst hc
      split
      · next hname => exact isNameChar_of_tableName? hname
      · exact ⟨by decide, by decide⟩
    · split
      · trivial
      · next hm => exact ⟨hq, hm⟩

/-- The segments of a balanced text are sound. -/
theorem sound_scan {cs : List Char} (h : insideAfter false cs = false) :
    ∀ s ∈ scan cs, s.Sound := by
  fun_induction scan cs with
  | case1 => simp
  | case2 c cs ih =>
      have hfirst := sound_first h
      have hrest : insideAfter false (first c cs).2 = false := by
        rw [← chars_first c cs, Text.insideAfter_append, insideAfter_chars hfirst] at h
        exact h
      intro s hs
      rcases List.mem_cons.1 hs with rfl | hs
      · exact hfirst
      · exact ih hrest s hs

/-! ## Collapsing by parity -/

/-- Writes one space for every run of blanks outside literals, by parity. -/
def squeezeText : (inside afterSpace : Bool) → List Char → List Char
  | _, _, [] => []
  | inside, afterSpace, c :: cs =>
    if !inside && Text.isBlank c then
      if afterSpace then squeezeText inside true cs else ' ' :: squeezeText inside true cs
    else c :: squeezeText (toggle inside c) false cs

@[simp] theorem squeezeText_nil (inside afterSpace : Bool) :
    squeezeText inside afterSpace [] = [] := rfl

theorem squeezeText_cons (inside afterSpace : Bool) (c : Char) (cs : List Char) :
    squeezeText inside afterSpace (c :: cs) =
      if !inside && Text.isBlank c then
        if afterSpace then squeezeText inside true cs else ' ' :: squeezeText inside true cs
      else c :: squeezeText (toggle inside c) false cs := rfl

/-- Inside a literal every character stays. -/
theorem squeezeText_inside (afterSpace : Bool) (c : Char) (cs : List Char) :
    squeezeText true afterSpace (c :: cs) = c :: squeezeText (toggle true c) false cs := by
  simp [squeezeText_cons]

theorem squeezeText_blank {c : Char} (h : Text.isBlank c = true) (afterSpace : Bool)
    (cs : List Char) :
    squeezeText false afterSpace (c :: cs) =
      if afterSpace then squeezeText false true cs else ' ' :: squeezeText false true cs := by
  simp [squeezeText_cons, h]

theorem squeezeText_of_not_blank {c : Char} (h : Text.isBlank c = false) (afterSpace : Bool)
    (cs : List Char) :
    squeezeText false afterSpace (c :: cs) = c :: squeezeText (toggle false c) false cs := by
  simp [squeezeText_cons, h]

/-- The content of a literal stays. -/
theorem squeezeText_double (s : List Char) (afterSpace : Bool) (c : Char) (cs : List Char) :
    squeezeText true afterSpace (Text.Quoted.double s ++ c :: cs) =
      Text.Quoted.double s ++ squeezeText true false (c :: cs) := by
  induction s generalizing afterSpace with
  | nil => simp [squeezeText_inside]
  | cons d s ih =>
      by_cases hd : d = '\''
      · have hq : Text.isBlank '\'' = false := by decide
        subst hd
        rw [Text.Quoted.double, if_pos rfl, List.cons_append, squeezeText_inside,
          List.cons_append, Text.toggle_quote, Bool.not_true, squeezeText_of_not_blank hq,
          Text.toggle_quote, Bool.not_false, ih]
        rfl
      · rw [Text.Quoted.double, if_neg hd, List.cons_append, squeezeText_inside,
          Text.toggle_of_ne hd, ih]
        rfl

/-- A literal stays, and what follows it does not follow a space. -/
theorem squeezeText_encode (s : List Char) (afterSpace : Bool) (cs : List Char) :
    squeezeText false afterSpace (Text.Quoted.encode s ++ cs) =
      Text.Quoted.encode s ++ squeezeText false false cs := by
  have hq : Text.isBlank '\'' = false := by decide
  rw [Text.Quoted.encode, List.cons_append, List.append_assoc, List.singleton_append,
    squeezeText_of_not_blank hq, Text.toggle_quote, Bool.not_false, squeezeText_double,
    squeezeText_inside, Text.toggle_quote, Bool.not_true, List.cons_append, List.append_assoc,
    List.singleton_append]

/-- A text without blanks and quotes stays, and what follows it does not follow a space. -/
theorem squeezeText_solid {t : List Char} (hne : t ≠ [])
    (h : ∀ c ∈ t, c ≠ '\'' ∧ Text.isBlank c = false) (afterSpace : Bool) (cs : List Char) :
    squeezeText false afterSpace (t ++ cs) = t ++ squeezeText false false cs := by
  induction t generalizing afterSpace with
  | nil => exact absurd rfl hne
  | cons c t ih =>
      obtain ⟨hc, hb⟩ := h c (by simp)
      rw [List.cons_append, squeezeText_of_not_blank hb, Text.toggle_of_ne hc, List.cons_append]
      cases t with
      | nil => rfl
      | cons d t => rw [ih (by simp) fun e he => h e (by simp [he])]

/-- Both ways to squeeze agree on sound segments. -/
theorem squeeze_eq {ss : List Segment} (h : ∀ s ∈ ss, s.Sound) (afterSpace : Bool) :
    squeeze afterSpace ss = squeezeText false afterSpace (ss.flatMap Segment.chars) := by
  induction ss generalizing afterSpace with
  | nil => cases afterSpace <;> rfl
  | cons s ss ih =>
      have hs := h s (by simp)
      have hss : ∀ s ∈ ss, s.Sound := fun t ht => h t (by simp [ht])
      rw [List.flatMap_cons]
      cases s with
      | literal content =>
          rw [squeeze, ih hss, Segment.chars, squeezeText_encode]
          exact fun c => Segment.noConfusion
      | marker =>
          rw [squeeze, ih hss, squeezeText_solid (by simp [Segment.chars]) (by decide)]
          exact fun c => Segment.noConfusion
      | table name =>
          have hsolid : ∀ c ∈ (Segment.table name).chars, c ≠ '\'' ∧ Text.isBlank c = false := by
            intro c hc
            rcases mem_chars_table hc with rfl | hc | rfl
            · decide
            · exact ⟨(ne_of_isNameChar (hs c hc)).1, Text.isBlank_of_isNameChar (hs c hc)⟩
            · decide
          rw [squeeze, ih hss, squeezeText_solid (by simp [Segment.chars]) hsolid]
          exact fun c => Segment.noConfusion
      | char c =>
          rw [squeeze, ih hss, ih hss]
          cases hb : Text.isBlank c with
          | true => rw [if_pos rfl, Segment.chars, List.singleton_append, squeezeText_blank hb]
          | false =>
              rw [if_neg Bool.false_ne_true, Segment.chars, List.singleton_append,
                squeezeText_of_not_blank hb, Text.toggle_of_ne hs.1]

/-- Collapsing the blanks of a balanced text, by parity. -/
theorem collapseChars_eq {cs : List Char} (h : insideAfter false cs = false) :
    collapseChars cs = Text.trimChars (squeezeText false false cs) := by
  rw [collapseChars, squeeze_eq (sound_scan h), flatMap_chars_scan]

end Fragment

/-! ## Signs -/

namespace Text

/-- The characters of a text that are outside its literals and not blank. -/
def signs : (inside : Bool) → List Char → List Char
  | _, [] => []
  | inside, c :: cs =>
    if inside || c == '\'' || isBlank c then signs (toggle inside c) cs
    else c :: signs (toggle inside c) cs

@[simp] theorem signs_nil (inside : Bool) : signs inside [] = [] := rfl

theorem signs_cons (inside : Bool) (c : Char) (cs : List Char) :
    signs inside (c :: cs) =
      if inside || c == '\'' || isBlank c then signs (toggle inside c) cs
      else c :: signs (toggle inside c) cs := rfl

theorem signs_append (inside : Bool) (xs ys : List Char) :
    signs inside (xs ++ ys) = signs inside xs ++ signs (insideAfter inside xs) ys := by
  induction xs generalizing inside with
  | nil => rfl
  | cons c xs ih =>
      rw [List.cons_append, signs_cons, signs_cons, ih, insideAfter_cons]
      split <;> rfl

theorem mem_of_mem_signs {inside : Bool} {cs : List Char} {c : Char} (h : c ∈ signs inside cs) :
    c ∈ cs := by
  induction cs generalizing inside with
  | nil => exact h
  | cons d cs ih =>
      rw [signs_cons] at h
      split at h
      · exact List.mem_cons_of_mem d (ih h)
      · rcases List.mem_cons.1 h with rfl | h
        · exact List.mem_cons_self
        · exact List.mem_cons_of_mem d (ih h)

/-- Blanks have no signs. -/
theorem signs_of_blank {cs : List Char} (h : ∀ c ∈ cs, isBlank c = true) (inside : Bool) :
    signs inside cs = [] := by
  induction cs generalizing inside with
  | nil => rfl
  | cons c cs ih =>
      have hc := h c (by simp)
      rw [signs_cons, if_pos (by simp [hc])]
      exact ih (fun d hd => h d (by simp [hd])) _

@[simp] theorem signs_double (s : List Char) : signs true (Quoted.double s) = [] := by
  induction s with
  | nil => rfl
  | cons c s ih =>
      by_cases hc : c = '\''
      · subst hc
        simpa [Quoted.double, signs_cons] using ih
      · simpa [Quoted.double, signs_cons, hc, toggle_of_ne hc] using ih

/-- A literal has no signs. -/
@[simp] theorem signs_encode (s : List Char) : signs false (Quoted.encode s) = [] := by
  simp [Quoted.encode, signs_cons, signs_append]

theorem insideAfter_of_blank {cs : List Char} (h : ∀ c ∈ cs, isBlank c = true)
    (inside : Bool) : insideAfter inside cs = inside :=
  insideAfter_of_not_mem (fun hq => ne_quote_of_isBlank (h _ hq) rfl) inside

/-- Trimming keeps the signs, and the side at the end. -/
theorem signs_trimChars (cs : List Char) :
    signs false (trimChars cs) = signs false cs ∧
      insideAfter false (trimChars cs) = insideAfter false cs := by
  obtain ⟨front, back, heq, hfront, hback, -⟩ := exists_trimBy isBlank cs
  rw [← trimChars_eq_trimBy] at heq
  have hsigns := congrArg (signs false) heq
  have hside := congrArg (insideAfter false) heq
  rw [signs_append, signs_append, signs_of_blank hfront, signs_of_blank hback,
    insideAfter_of_blank hfront, List.nil_append, List.append_nil] at hsigns
  rw [insideAfter_append, insideAfter_append, insideAfter_of_blank hfront,
    insideAfter_of_blank hback] at hside
  exact ⟨hsigns.symm, hside.symm⟩

end Text

namespace Fragment

/-- Squeezing blanks keeps the signs. -/
theorem signs_squeezeText (inside afterSpace : Bool) (cs : List Char) :
    Text.signs inside (squeezeText inside afterSpace cs) = Text.signs inside cs := by
  have hspace (l : List Char) : Text.signs false (' ' :: l) = Text.signs false l := rfl
  induction cs generalizing inside afterSpace with
  | nil => rfl
  | cons c cs ih =>
      rw [squeezeText_cons, Text.signs_cons]
      split
      · next hb =>
        simp only [Bool.and_eq_true, Bool.not_eq_true'] at hb
        obtain ⟨rfl, hb⟩ := hb
        have hq : c ≠ '\'' := Text.ne_quote_of_isBlank hb
        -- the blank is dropped or becomes a space, which is no sign either
        have hrest : Text.signs false (squeezeText false true cs) = Text.signs false cs :=
          ih false true
        have hskip : (false || c == '\'' || Text.isBlank c) = true := by simp [hb]
        rw [Text.toggle_of_ne hq, if_pos hskip]
        split
        · exact hrest
        · rw [hspace, hrest]
      · rw [Text.signs_cons, ih]

/-- Collapsing blanks keeps the signs of a balanced text. -/
theorem signs_collapseChars {cs : List Char} (h : insideAfter false cs = false) :
    Text.signs false (collapseChars cs) = Text.signs false cs := by
  rw [collapseChars_eq h, (Text.signs_trimChars _).1, signs_squeezeText]

/-! ## Markers by parity -/

/-- How many of the signs of a text are question marks. -/
def questionMarks (cs : List Char) : Nat :=
  (Text.signs false cs).count '?'

theorem questionMarks_append {xs : List Char} (h : insideAfter false xs = false)
    (ys : List Char) : questionMarks (xs ++ ys) = questionMarks xs + questionMarks ys := by
  rw [questionMarks, Text.signs_append, h, List.count_append]
  rfl

theorem questionMarks_of_not_mem {cs : List Char} (h : '?' ∉ cs) : questionMarks cs = 0 :=
  List.count_eq_zero.2 fun hq => h (Text.mem_of_mem_signs hq)

/-- The question marks outside literals of a sound segment. -/
theorem questionMarks_chars {s : Segment} (h : s.Sound) :
    questionMarks s.chars = if s = .marker then 1 else 0 := by
  cases s with
  | literal content => simp [questionMarks, Segment.chars]
  | marker => rfl
  | table name =>
      refine questionMarks_of_not_mem fun hq => ?_
      rcases mem_chars_table hq with hq | hq | hq
      · exact absurd hq (by decide)
      · exact (ne_of_isNameChar (h _ hq)).2 rfl
      · exact absurd hq (by decide)
  | char c => exact questionMarks_of_not_mem (by simpa [Segment.chars] using h.2.symm)

theorem markers_cons (s : Segment) (ss : List Segment) :
    markers (s :: ss) = (if s = .marker then 1 else 0) + markers ss := by
  rw [markers, List.count_cons, Nat.add_comm, markers]
  simp only [beq_iff_eq]

/-- The markers among sound segments are the question marks outside literals of their text. -/
theorem markers_eq {ss : List Segment} (h : ∀ s ∈ ss, s.Sound) :
    markers ss = questionMarks (ss.flatMap Segment.chars) := by
  induction ss with
  | nil => rfl
  | cons s ss ih =>
      have hs := h s (by simp)
      rw [List.flatMap_cons, questionMarks_append (insideAfter_chars hs), questionMarks_chars hs,
        markers_cons, ih fun t ht => h t (by simp [ht])]

/-- The markers of a balanced text are its question marks outside literals. -/
theorem markers_scan {cs : List Char} (h : insideAfter false cs = false) :
    markers (scan cs) = questionMarks cs := by
  rw [markers_eq (sound_scan h), flatMap_chars_scan]

end Fragment

end SelectSql
