import SelectSql.Dialect

/-!
# SelectSql.Proofs.Escapes

Literals as MySQL reads them. A quote inside a literal is written twice, as everywhere
in SQL, but a backslash escapes as well: it takes the meaning from the character behind
it. Values are quoted alike for all engines and leave a backslash as it is, while the
literal of an escape character writes it twice.

Main statement: exactly the texts without a backslash are read back
(`Dialect.literal?_mySql_iff`).
-/

namespace SelectSql

namespace Text.Escaped

/-- The content of a literal whose opening quote has been read, and the text behind its
closing quote, where a backslash escapes the character behind it. -/
def body? : List Char → Option (List Char × List Char)
  | [] => none
  | ['\\'] => none
  | '\\' :: c :: cs => (body? cs).map fun p => (c :: p.1, p.2)
  | '\'' :: '\'' :: cs => (body? cs).map fun p => ('\'' :: p.1, p.2)
  | '\'' :: cs => some ([], cs)
  | c :: cs => (body? cs).map fun p => (c :: p.1, p.2)

/-- The content of the literal at the beginning of a text, and the text behind it. -/
def literal? : List Char → Option (List Char × List Char)
  | '\'' :: cs => body? cs
  | _ => none

@[simp] theorem body?_escaped (c : Char) (cs : List Char) :
    body? ('\\' :: c :: cs) = (body? cs).map fun p => (c :: p.1, p.2) := by
  rw [body?]

@[simp] theorem body?_doubled (cs : List Char) :
    body? ('\'' :: '\'' :: cs) = (body? cs).map fun p => ('\'' :: p.1, p.2) := by
  rw [body?]

/-- A quote that no other quote follows closes a literal. -/
theorem body?_quote {rest : List Char} (h : rest.head? ≠ some '\'') :
    body? ('\'' :: rest) = some ([], rest) := by
  cases rest with
  | nil => rfl
  | cons c cs =>
      have hc : c ≠ '\'' := fun e => h (by simp [e])
      rw [body?]
      · exact fun _ e => hc (List.cons.inj e).1

theorem body?_plain {c : Char} (hq : c ≠ '\'') (hb : c ≠ '\\') (cs : List Char) :
    body? (c :: cs) = (body? cs).map fun p => (c :: p.1, p.2) := by
  rw [body?] <;> simp_all

/-! ## Texts without a backslash -/

/-- Without a backslash the content of a literal is read as in any SQL. -/
theorem body?_double_append {s : List Char} (hs : '\\' ∉ s) (cs : List Char) :
    body? (Quoted.double s ++ cs) = (body? cs).map fun p => (s ++ p.1, p.2) := by
  induction s with
  | nil => simp
  | cons c s ih =>
      have hc : c ≠ '\\' := fun e => hs (by simp [e])
      have hrest := ih fun e => hs (List.mem_cons_of_mem c e)
      by_cases hq : c = '\''
      · subst hq
        simp [Quoted.double, hrest, Function.comp_def]
      · simp [Quoted.double, hq, body?_plain hq hc, hrest, Function.comp_def]

/-! ## Texts with a backslash -/

/-- What a text may hold of a literal, counted in halves of a character: a quote stands
for half a character there, since two of them make one. -/
def weight (cs : List Char) : Nat :=
  2 * cs.length - cs.count '\''

theorem weight_cons (c : Char) (cs : List Char) :
    weight (c :: cs) = weight cs + if c = '\'' then 1 else 2 := by
  have hle : cs.count '\'' ≤ cs.length := List.count_le_length
  rw [weight, weight, List.length_cons, List.count_cons]
  by_cases hc : c = '\''
  · simp only [hc, beq_self_eq_true, if_true]
    omega
  · simp only [beq_iff_eq, hc, if_false]
    omega

theorem weight_double_append (s cs : List Char) :
    weight (Quoted.double s ++ cs) = 2 * s.length + weight cs := by
  induction s with
  | nil => simp
  | cons c s ih =>
      by_cases hc : c = '\''
      · simp only [Quoted.double, hc, if_true, List.cons_append, weight_cons, ih, List.length_cons]
        omega
      · simp only [Quoted.double, hc, if_false, List.cons_append, weight_cons, ih,
          List.length_cons]
        omega

/-- Every character of the content weighs a whole at least, and the closing quote a half. -/
theorem weight_of_body? {cs s rest : List Char} (h : body? cs = some (s, rest)) :
    2 * s.length + 1 + weight rest ≤ weight cs := by
  fun_induction body? cs generalizing s rest with
  | case1 => simp at h
  | case2 => simp at h
  | case3 c cs ih =>
      obtain ⟨p, hp, hpe⟩ := Option.map_eq_some_iff.1 h
      obtain ⟨rfl, rfl⟩ := Prod.mk.inj hpe
      have hrec := ih hp
      have hc : 1 ≤ if c = '\'' then 1 else 2 := by split <;> omega
      have hb : ('\\' : Char) ≠ '\'' := by decide
      rw [weight_cons, weight_cons, if_neg hb, List.length_cons]
      omega
  | case4 cs ih =>
      obtain ⟨p, hp, hpe⟩ := Option.map_eq_some_iff.1 h
      obtain ⟨rfl, rfl⟩ := Prod.mk.inj hpe
      have hrec := ih hp
      rw [weight_cons, weight_cons, if_pos rfl, List.length_cons]
      omega
  | case5 cs =>
      obtain ⟨rfl, rfl⟩ := Prod.mk.inj (Option.some.inj h)
      rw [weight_cons, if_pos rfl, List.length_nil]
      omega
  | case6 c cs hlone hback hquote hclose ih =>
      obtain ⟨p, hp, hpe⟩ := Option.map_eq_some_iff.1 h
      obtain ⟨rfl, rfl⟩ := Prod.mk.inj hpe
      have hrec := ih hp
      have hc : c ≠ '\'' := fun e => hclose e
      rw [weight_cons, if_neg hc, List.length_cons]
      omega

/-- Behind the first backslash of a text less is read than is written: either it escapes
another character, or it takes the second backslash for its own. -/
theorem not_mem_of_body? {s rest : List Char}
    (h : body? (Quoted.double s ++ '\'' :: rest) = some (s, rest)) : '\\' ∉ s := by
  intro hmem
  obtain ⟨front, back, rfl, hfront⟩ := List.eq_append_cons_of_mem hmem
  have hback : Quoted.double ('\\' :: back) = '\\' :: Quoted.double back := by
    simp [Quoted.double]
  rw [Quoted.double_append, List.append_assoc, body?_double_append hfront, hback] at h
  obtain ⟨⟨content, rest'⟩, hbody, heq⟩ := Option.map_eq_some_iff.1 h
  obtain ⟨hcontent, hrest⟩ := Prod.mk.inj heq
  obtain rfl : content = '\\' :: back := List.append_cancel_left hcontent
  obtain rfl : rest' = rest := hrest
  cases back with
  | nil => simp at hbody
  | cons c back =>
      -- what the backslash escapes has to be a backslash as well
      by_cases hc : c = '\''
      · subst hc
        simp [Quoted.double] at hbody
      · simp only [Quoted.double, hc, if_false, List.cons_append, body?_escaped,
          Option.map_eq_some_iff, Prod.mk.injEq, List.cons.injEq] at hbody
        obtain ⟨⟨content', rest''⟩, hbody, ⟨-, rfl⟩, rfl⟩ := hbody
        have hweight := weight_of_body? hbody
        simp only [weight_double_append, weight_cons, if_true, List.length_cons] at hweight
        omega

end Text.Escaped

/-! ## Values -/

namespace Dialect

open Text.Escaped

/-- **MySQL reads a text back exactly if it has no backslash**, whatever follows its
literal, unless that starts with a quote. -/
theorem literal?_mySql_iff (s : String) {rest : List Char} (h : rest.head? ≠ some '\'') :
    literal? ((Dialect.mySql.literal (.text s)).toList ++ rest) = some (s.toList, rest) ↔
      '\\' ∉ s.toList := by
  have hliteral : literal? ((Dialect.mySql.literal (.text s)).toList ++ rest) =
      body? (Text.Quoted.double s.toList ++ '\'' :: rest) := by
    have hquote : (Dialect.mySql.literal (.text s)).toList = Text.Quoted.encode s.toList :=
      Text.Quoted.toList_quote s
    rw [hquote, Text.Quoted.encode, List.cons_append, literal?, List.append_assoc,
      List.singleton_append]
  rw [hliteral]
  constructor
  · exact not_mem_of_body?
  · intro hs
    rw [body?_double_append hs, body?_quote h]
    simp

theorem literal?_mySql_iff_quoted :
    (" OR 1 = 1".toList.head? ≠ some '\'') ∧
      literal? ((Dialect.mySql.literal (.text "it's")).toList ++ " OR 1 = 1".toList) =
        some ("it's".toList, " OR 1 = 1".toList) :=
  have h : " OR 1 = 1".toList.head? ≠ some '\'' := by decide
  ⟨h, (literal?_mySql_iff "it's" h).2 (by decide)⟩

/-- The literal of a single backslash does not end where it is written to end: its closing
quote is escaped. -/
theorem literal?_mySql_backslash :
    ¬ ∀ (s : String) (rest : List Char), rest.head? ≠ some '\'' →
      literal? ((Dialect.mySql.literal (.text s)).toList ++ rest) = some (s.toList, rest) := by
  intro h
  have hlone : literal? ((Dialect.mySql.literal (.text "\\")).toList ++ []) = none := by decide
  rw [h "\\" [] (by decide)] at hlone
  contradiction

end Dialect

end SelectSql
