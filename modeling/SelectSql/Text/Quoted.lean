/-!
# SelectSql.Text.Quoted

String literals of SQL: the text stands between two single quotes, and a quote
inside the text is written twice. `encode` writes a literal and `body?` reads one
back, starting behind its opening quote.

Design points:

* **The reader answers with the content, not with the spelling.** Every content
  has one spelling (`eq_of_body?`), so nothing is lost by it.
* **A quote that is not doubled closes the literal**, and `body?` fails only when
  no such quote follows.
-/

namespace SelectSql.Text.Quoted

/-- Writes every quote twice. -/
def double : List Char → List Char
  | [] => []
  | c :: cs => if c = '\'' then '\'' :: '\'' :: double cs else c :: double cs

/-- The literal of a text. -/
def encode (cs : List Char) : List Char :=
  '\'' :: (double cs ++ ['\''])

/-- The literal of a text, as a string. -/
def quote (s : String) : String :=
  String.ofList (encode s.toList)

@[simp] theorem double_nil : double [] = [] := rfl

@[simp] theorem double_append (xs ys : List Char) :
    double (xs ++ ys) = double xs ++ double ys := by
  induction xs with
  | nil => rfl
  | cons c xs ih => by_cases h : c = '\'' <;> simp [double, h, ih]

@[simp] theorem toList_quote (s : String) : (quote s).toList = encode s.toList := by
  simp [quote]

/-! ## Reading -/

/-- The content of a literal whose opening quote has been read, and the text
behind its closing quote. -/
def body? : List Char → Option (List Char × List Char)
  | [] => none
  | '\'' :: '\'' :: cs => (body? cs).map fun p => ('\'' :: p.1, p.2)
  | '\'' :: cs => some ([], cs)
  | c :: cs => (body? cs).map fun p => (c :: p.1, p.2)

/-- What was read is the doubled content, a closing quote and the rest. -/
theorem eq_of_body? {cs s rest : List Char} (h : body? cs = some (s, rest)) :
    cs = double s ++ '\'' :: rest := by
  fun_induction body? cs generalizing s rest with
  | case1 => simp at h
  | case2 cs ih =>
    obtain ⟨p, hp, hpe⟩ := Option.map_eq_some_iff.1 h
    obtain ⟨rfl, rfl⟩ := Prod.mk.inj hpe
    simp [double, ih hp]
  | case3 cs =>
    obtain ⟨rfl, rfl⟩ := Prod.mk.inj (Option.some.inj h)
    simp
  | case4 c cs hne hq ih =>
    obtain ⟨p, hp, hpe⟩ := Option.map_eq_some_iff.1 h
    obtain ⟨rfl, rfl⟩ := Prod.mk.inj hpe
    have hc : c ≠ '\'' := fun e => hq e
    simp [double, hc, ih hp]

/-- A quote that no other quote follows closes a literal. -/
theorem body?_quote {rest : List Char} (h : rest.head? ≠ some '\'') :
    body? ('\'' :: rest) = some ([], rest) := by
  cases rest with
  | nil => rfl
  | cons c cs =>
    have hc : c ≠ '\'' := fun e => h (by simp [e])
    simp [body?, hc]

/-- What is written is read back, whatever follows it, unless that starts with a quote. -/
theorem body?_double_append (s : List Char) {rest : List Char} (h : rest.head? ≠ some '\'') :
    body? (double s ++ '\'' :: rest) = some (s, rest) := by
  induction s with
  | nil => exact body?_quote h
  | cons c s ih => by_cases hc : c = '\'' <;> simp [double, body?, hc, ih]

/-- The rest behind a literal is shorter than the text that was read. -/
theorem length_lt_of_body? {cs s rest : List Char} (h : body? cs = some (s, rest)) :
    rest.length < cs.length := by
  rw [eq_of_body? h]
  simp
  omega

end SelectSql.Text.Quoted
