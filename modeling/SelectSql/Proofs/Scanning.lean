import SelectSql.Proofs.Quotes

/-!
# SelectSql.Proofs.Scanning

The scanner of `SelectSql.Fragment` followed character by character, on any text, whether
its quotes are balanced or not. Only a quote makes it read ahead: what it makes of a table
name is, for all that looks at the characters outside literals, a row of characters.

Main statements: the equations of collapsing, for a character that is no quote
(`squeeze_scan_cons`), for a literal (`squeeze_scan_encode`) and for a quote behind which no
literal ends (`squeeze_scan_lone`); a balanced text is collapsed alike whatever sign stands
behind it (`squeeze_scan_append`).
-/

namespace SelectSql.Fragment

/-! ## Characters -/

/-- A character that opens neither a literal nor a table name stands for itself. -/
theorem scan_plain {c : Char} (hq : c ≠ '\'') (hb : c ≠ '\x7b') (cs : List Char) :
    scan (c :: cs) = (if c = '?' then .marker else .char c) :: scan cs := by
  rw [scan_cons, first, if_neg hq, if_neg hb]
  split <;> rfl

/-- The characters of names stand for themselves. -/
theorem scan_name {name : List Char} (h : ∀ c ∈ name, Text.isNameChar c = true)
    (cs : List Char) : scan (name ++ cs) = name.map .char ++ scan cs := by
  induction name with
  | nil => rfl
  | cons c name ih =>
      obtain ⟨hq, hm⟩ := ne_of_isNameChar (h c (by simp))
      have hb : c ≠ '\x7b' := by
        rintro rfl
        have hopen := h '\x7b' (by simp)
        exact absurd hopen (by decide)
      rw [List.cons_append, scan_plain hq hb, if_neg hm, ih fun d hd => h d (by simp [hd])]
      rfl

/-- What is read at a character that is no quote: the character alone, or a table name. -/
theorem scan_cases {c : Char} (h : c ≠ '\'') (cs : List Char) :
    (∃ s : Segment, (s = .marker ∧ c = '?' ∨ s = .char c) ∧ scan (c :: cs) = s :: scan cs) ∨
      ∃ name rest, c = '\x7b' ∧ (∀ d ∈ name, Text.isNameChar d = true) ∧
        scan (c :: cs) = .table name :: scan rest ∧
        scan cs = name.map .char ++ .char '\x7d' :: scan rest := by
  by_cases hb : c = '\x7b'
  · subst hb
    rw [scan_cons, first, if_neg h, if_pos rfl]
    cases hname : tableName? cs with
    | none => exact .inl ⟨_, .inr rfl, rfl⟩
    | some p =>
        obtain ⟨name, rest⟩ := p
        have hchars := isNameChar_of_tableName? hname
        have hclose : scan ('\x7d' :: rest) = .char '\x7d' :: scan rest :=
          scan_plain (by decide) (by decide) rest
        refine .inr ⟨name, rest, rfl, hchars, rfl, ?_⟩
        rw [eq_of_tableName? hname, scan_name hchars, hclose]
  · refine .inl ⟨_, ?_, scan_plain h hb cs⟩
    split
    · next hm => exact .inl ⟨rfl, hm⟩
    · exact .inr rfl

/-- A literal is read as a whole, unless a quote follows it. -/
theorem scan_encode (s : List Char) {rest : List Char} (h : rest.head? ≠ some '\'') :
    scan (Text.Quoted.encode s ++ rest) = .literal s :: scan rest := by
  have hbody : Text.Quoted.body? (Text.Quoted.double s ++ ['\''] ++ rest) = some (s, rest) := by
    rw [List.append_assoc]
    exact Text.Quoted.body?_double_append s h
  rw [Text.Quoted.encode, List.cons_append, scan_cons, first, if_pos rfl, hbody]

/-! ## Literals -/

/-- Where a text has no quote, its reader goes on behind it. -/
theorem body?_append {xs : List Char} (h : '\'' ∉ xs) (cs : List Char) :
    Text.Quoted.body? (xs ++ cs) = (Text.Quoted.body? cs).map fun p => (xs ++ p.1, p.2) := by
  induction xs with
  | nil => simp
  | cons c xs ih =>
      have hc : c ≠ '\'' := fun e => h (by simp [e])
      rw [List.cons_append, Text.Quoted.body?, ih fun e => h (by simp [e])]
      · simp [Function.comp_def]
      · exact fun _ e => absurd e hc
      · exact hc

theorem double_of_not_mem {xs : List Char} (h : '\'' ∉ xs) : Text.Quoted.double xs = xs := by
  induction xs with
  | nil => rfl
  | cons c xs ih =>
      have hc : c ≠ '\'' := fun e => h (by simp [e])
      rw [Text.Quoted.double, if_neg hc, ih fun e => h (by simp [e])]

/-- What stands behind a literal does not begin with a quote. -/
theorem head?_of_body? {cs s rest : List Char} (h : Text.Quoted.body? cs = some (s, rest)) :
    rest.head? ≠ some '\'' := by
  fun_induction Text.Quoted.body? cs generalizing s rest with
  | case1 => simp at h
  | case2 cs ih | case4 c cs hne hq ih =>
      obtain ⟨p, hp, hpe⟩ := Option.map_eq_some_iff.1 h
      obtain ⟨-, rfl⟩ := Prod.mk.inj hpe
      exact ih hp
  | case3 cs hne =>
      obtain ⟨-, rfl⟩ := Prod.mk.inj (Option.some.inj h)
      intro hhead
      obtain ⟨rest, rfl⟩ := List.head?_eq_some_iff.1 hhead
      exact hne rest rfl

/-! ## Collapsing -/

/-- A row of characters that are not blank stays as it is. -/
theorem squeeze_map_char {cs : List Char} (h : ∀ c ∈ cs, Text.isBlank c = false)
    (ss : List Segment) : squeeze false (cs.map .char ++ ss) = cs ++ squeeze false ss := by
  induction cs with
  | nil => rfl
  | cons c cs ih =>
      rw [List.map_cons, List.cons_append, squeeze, h c (by simp), if_neg Bool.false_ne_true,
        ih fun d hd => h d (by simp [hd])]
      rfl

/-- Collapsing at a character that is no quote. -/
theorem squeeze_scan_cons {c : Char} (h : c ≠ '\'') (afterSpace : Bool) (cs : List Char) :
    squeeze afterSpace (scan (c :: cs)) =
      if Text.isBlank c then
        if afterSpace then squeeze true (scan cs) else ' ' :: squeeze true (scan cs)
      else c :: squeeze false (scan cs) := by
  rcases scan_cases h cs with ⟨s, hs, hscan⟩ | ⟨name, rest, rfl, hname, hscan, hrest⟩
  · rw [hscan]
    rcases hs with ⟨rfl, rfl⟩ | rfl
    · rfl
    · rw [squeeze]
  · -- a table name is written as the characters that it was read from
    have hclose : squeeze false (.char '\x7d' :: scan rest) = '\x7d' :: squeeze false (scan rest) :=
      rfl
    have hchars := squeeze_map_char (fun d hd => Text.isBlank_of_isNameChar (hname d hd))
      (.char '\x7d' :: scan rest)
    have hopen : Text.isBlank '\x7b' = false := by decide
    rw [hscan, hrest, hchars, hclose, hopen, if_neg Bool.false_ne_true]
    simp [squeeze, Segment.chars]

/-- Collapsing at a literal, which stays as it is. -/
theorem squeeze_scan_encode (s : List Char) {rest : List Char} (h : rest.head? ≠ some '\'')
    (afterSpace : Bool) :
    squeeze afterSpace (scan (Text.Quoted.encode s ++ rest)) =
      Text.Quoted.encode s ++ squeeze false (scan rest) := by
  rw [scan_encode s h, squeeze, Segment.chars]
  exact fun _ => Segment.noConfusion

/-- Collapsing at a quote behind which no literal ends. -/
theorem squeeze_scan_lone {cs : List Char} (h : Text.Quoted.body? cs = none)
    (afterSpace : Bool) :
    squeeze afterSpace (scan ('\'' :: cs)) = '\'' :: squeeze false (scan cs) := by
  have hquote : Text.isBlank '\'' = false := by decide
  rw [scan_cons, first, if_pos rfl, h, squeeze, hquote, if_neg Bool.false_ne_true]

/-- A word without blanks and quotes stays as it is. -/
theorem squeeze_scan_solid {word : List Char} (hne : word ≠ [])
    (h : ∀ c ∈ word, c ≠ '\'' ∧ Text.isBlank c = false) (afterSpace : Bool) (cs : List Char) :
    squeeze afterSpace (scan (word ++ cs)) = word ++ squeeze false (scan cs) := by
  induction word generalizing afterSpace with
  | nil => exact absurd rfl hne
  | cons c word ih =>
      obtain ⟨hq, hb⟩ := h c (by simp)
      rw [List.cons_append, squeeze_scan_cons hq, hb, if_neg Bool.false_ne_true]
      cases word with
      | nil => rfl
      | cons d word =>
          rw [ih (by simp) fun e he => h e (by simp [he])]
          rfl

/-- **A balanced text is collapsed by itself**, if a sign follows it. -/
theorem squeeze_scan_append {text : List Char} (h : Text.insideAfter false text = false)
    {sign : Char} (hq : sign ≠ '\'') (hb : Text.isBlank sign = false) (afterSpace : Bool)
    (cs : List Char) :
    squeeze afterSpace (scan (text ++ sign :: cs)) =
      squeezeText false afterSpace text ++ sign :: squeeze false (scan cs) := by
  match text with
  | [] =>
      rw [List.nil_append, squeeze_scan_cons hq, hb, if_neg Bool.false_ne_true]
      rfl
  | c :: text =>
      by_cases hc : c = '\''
      · subst hc
        cases hbody : Text.Quoted.body? text with
        | none =>
            -- the literal does not end, so the text is not balanced
            have hopen := Text.insideAfter_of_body?_eq_none hbody
            rw [Text.insideAfter_cons, Text.toggle_quote, Bool.not_false, hopen] at h
            contradiction
        | some p =>
            obtain ⟨content, rest⟩ := p
            have hlength := Text.Quoted.length_lt_of_body? hbody
            have hliteral : '\'' :: text = Text.Quoted.encode content ++ rest := by
              simp [Text.Quoted.encode, Text.Quoted.eq_of_body? hbody]
            have hrest : Text.insideAfter false rest = false := by
              rwa [hliteral, Text.insideAfter_append, Text.insideAfter_encode] at h
            have hhead : (rest ++ sign :: cs).head? ≠ some '\'' := by
              have hclosed := head?_of_body? hbody
              cases rest with
              | nil => simpa using hq
              | cons d rest => exact hclosed
            rw [hliteral, List.append_assoc, squeeze_scan_encode content hhead,
              squeezeText_encode, squeeze_scan_append hrest hq hb false cs, List.append_assoc]
      · have hrest : Text.insideAfter false text = false := by
          rwa [Text.insideAfter_cons, Text.toggle_of_ne hc] at h
        rw [List.cons_append, squeeze_scan_cons hc, squeezeText_cons, Bool.not_false, Bool.true_and,
          Text.toggle_of_ne hc, squeeze_scan_append hrest hq hb true cs,
          squeeze_scan_append hrest hq hb false cs]
        split
        · split <;> rfl
        · rfl
termination_by text.length

/-- Collapsing keeps a character that is not blank at the end. -/
theorem exists_squeezeText_concat {c : Char} (hc : Text.isBlank c = false)
    (inside afterSpace : Bool) (cs : List Char) :
    ∃ front, squeezeText inside afterSpace (cs ++ [c]) = front ++ [c] := by
  induction cs generalizing inside afterSpace with
  | nil => exact ⟨[], by simp [squeezeText_cons, hc]⟩
  | cons d cs ih =>
      rw [List.cons_append, squeezeText_cons]
      split
      · obtain ⟨front, hfront⟩ := ih inside true
        split
        · exact ⟨front, hfront⟩
        · exact ⟨' ' :: front, by rw [hfront, List.cons_append]⟩
      · obtain ⟨front, hfront⟩ := ih (Text.toggle inside d) false
        exact ⟨d :: front, by rw [hfront, List.cons_append]⟩

/-- Collapsing a trimmed text leaves nothing to trim. -/
theorem trimmed_squeezeText {cs : List Char} (h : Text.Trimmed Text.isBlank cs) :
    Text.Trimmed Text.isBlank (squeezeText false false cs) := by
  constructor
  · cases cs with
    | nil => simp
    | cons c cs =>
        have hc := h.head c rfl
        rw [squeezeText_of_not_blank hc]
        simpa using hc
  · rcases List.eq_nil_or_concat cs with rfl | ⟨cs, c, rfl⟩
    · simp
    · rw [List.concat_eq_append] at h ⊢
      have hc := h.last c (by simp)
      obtain ⟨front, hfront⟩ := exists_squeezeText_concat hc false false cs
      rw [hfront]
      simpa using hc

/-- **What stands in parentheses is collapsed by itself**, if it is balanced and trimmed, and
the words before it have no blanks to collapse. -/
theorem collapseChars_parens {head text : List Char} (hhead : Text.insideAfter false head = false)
    (hsqueeze : squeezeText false false head = head)
    (hfirst : ∀ c ∈ head.head?, Text.isBlank c = false)
    (htext : Text.insideAfter false text = false) (htrim : Text.Trimmed Text.isBlank text)
    (rest : List Char) :
    collapseChars (head ++ '(' :: (text ++ ')' :: rest)) =
      head ++ '(' :: (collapseChars text ++ collapseChars (')' :: rest)) := by
  have hall : squeeze false (scan (head ++ '(' :: (text ++ ')' :: rest))) =
      (head ++ '(' :: squeezeText false false text) ++ ')' :: squeeze false (scan rest) := by
    rw [squeeze_scan_append hhead (by decide) (by decide),
      squeeze_scan_append htext (by decide) (by decide), hsqueeze]
    simp
  have hinner : collapseChars text = squeezeText false false text := by
    rw [collapseChars_eq htext]
    exact Text.trimBy_eq_self (trimmed_squeezeText htrim)
  have hrest : collapseChars (')' :: rest) = Text.trimChars (')' :: squeeze false (scan rest)) := by
    rw [collapseChars, squeeze_scan_cons (by decide)]
    rfl
  have hbegin : ∀ c ∈ (head ++ '(' :: squeezeText false false text).head?,
      Text.isBlank c = false := by
    intro c hc
    cases head with
    | nil =>
        obtain rfl : '(' = c := by simpa using hc
        decide
    | cons d head => exact hfirst c hc
  rw [collapseChars, hall, hinner, hrest, ← List.cons_append, ← List.append_assoc]
  exact Text.trimBy_append_cons hbegin (by decide) _

end SelectSql.Fragment
