import SelectSql.Proofs.Scanning

/-!
# SelectSql.Proofs.QuoteRuns

The runs of quotes of a text. Behind an opening quote, a run of even length only writes quotes
of the content, and the first run of odd length ends the literal. So whether a literal ends
depends on the lengths of the runs alone (`body?_eq_none_iff`), and whatever is written for the
words between the runs, the same quotes open and close literals.
-/

namespace SelectSql.Text

/-- The lengths of the runs of quotes of a text. -/
structure QuoteRuns where
  /-- How many quotes the text begins with. -/
  first : Nat
  /-- The lengths of the runs behind. -/
  later : List Nat

namespace QuoteRuns

/-- The runs of a text with a word in front of it. -/
def behindWord (r : QuoteRuns) : QuoteRuns :=
  ⟨0, if r.first = 0 then r.later else r.first :: r.later⟩

/-- All runs are of even length. -/
def IsEven (r : QuoteRuns) : Prop :=
  r.first % 2 = 0 ∧ ∀ n ∈ r.later, n % 2 = 0

@[simp] theorem first_behindWord (r : QuoteRuns) : r.behindWord.first = 0 := rfl

@[simp] theorem behindWord_behindWord (r : QuoteRuns) :
    r.behindWord.behindWord = r.behindWord := rfl

theorem isEven_behindWord {r : QuoteRuns} : r.behindWord.IsEven ↔ r.IsEven := by
  rcases r with ⟨n, ns⟩
  by_cases hn : n = 0 <;> simp [behindWord, IsEven, hn]

end QuoteRuns

/-- The runs of quotes of a text. -/
def quoteRuns : List Char → QuoteRuns
  | [] => ⟨0, []⟩
  | c :: cs =>
    if c = '\'' then ⟨(quoteRuns cs).first + 1, (quoteRuns cs).later⟩
    else (quoteRuns cs).behindWord

@[simp] theorem quoteRuns_nil : quoteRuns [] = ⟨0, []⟩ := rfl

@[simp] theorem quoteRuns_quote (cs : List Char) :
    quoteRuns ('\'' :: cs) = ⟨(quoteRuns cs).first + 1, (quoteRuns cs).later⟩ := rfl

theorem quoteRuns_cons {c : Char} (h : c ≠ '\'') (cs : List Char) :
    quoteRuns (c :: cs) = (quoteRuns cs).behindWord := by
  rw [quoteRuns, if_neg h]

/-- Of a word only its place is seen. -/
theorem quoteRuns_word {word : List Char} (hne : word ≠ []) (h : '\'' ∉ word) (cs : List Char) :
    quoteRuns (word ++ cs) = (quoteRuns cs).behindWord := by
  induction word with
  | nil => exact absurd rfl hne
  | cons c word ih =>
      obtain ⟨hc, hword⟩ : c ≠ '\'' ∧ '\'' ∉ word := by simpa [eq_comm] using h
      rw [List.cons_append, quoteRuns_cons hc]
      by_cases hnil : word = []
      · rw [hnil, List.nil_append]
      · rw [ih hnil hword, QuoteRuns.behindWord_behindWord]

/-- The runs of a text are determined by those of its end. -/
theorem quoteRuns_congr {ys zs : List Char} (h : quoteRuns ys = quoteRuns zs) (xs : List Char) :
    quoteRuns (xs ++ ys) = quoteRuns (xs ++ zs) := by
  induction xs with
  | nil => exact h
  | cons c xs ih => rw [List.cons_append, List.cons_append, quoteRuns, quoteRuns, ih]

/-- A word at the end of a text adds no run. -/
theorem quoteRuns_append {word : List Char} (h : '\'' ∉ word) (cs : List Char) :
    quoteRuns (cs ++ word) = quoteRuns cs := by
  have hword : quoteRuns word = quoteRuns [] := by
    by_cases hne : word = []
    · rw [hne]
    · rw [← List.append_nil word, quoteRuns_word hne h]
      rfl
  rw [quoteRuns_congr hword, List.append_nil]

theorem head?_eq_quote_iff {cs : List Char} :
    cs.head? = some '\'' ↔ (quoteRuns cs).first ≠ 0 := by
  cases cs with
  | nil => simp
  | cons c cs => by_cases hc : c = '\'' <;> simp [quoteRuns, hc]

/-- **Where all runs of quotes are even, no literal ends.** -/
theorem body?_eq_none_iff (cs : List Char) : Quoted.body? cs = none ↔ (quoteRuns cs).IsEven := by
  fun_induction Quoted.body? cs with
  | case1 => simp [QuoteRuns.IsEven]
  | case2 cs ih =>
      -- two more quotes do not change the parity
      rw [Option.map_eq_none_iff, ih, quoteRuns_quote, quoteRuns_quote]
      refine and_congr_left fun _ => ?_
      show (quoteRuns cs).first % 2 = 0 ↔ ((quoteRuns cs).first + 2) % 2 = 0
      rw [Nat.add_mod_right]
  | case3 cs hne =>
      -- the run is a single quote
      have hfirst : (quoteRuns cs).first = 0 := by
        by_contra hfirst
        obtain ⟨rest, rfl⟩ := List.head?_eq_some_iff.1 (head?_eq_quote_iff.2 hfirst)
        exact hne rest rfl
      simp [QuoteRuns.IsEven, hfirst]
  | case4 c cs hne hq ih =>
      have hc : c ≠ '\'' := fun e => hq e
      rw [Option.map_eq_none_iff, ih, quoteRuns_cons hc, QuoteRuns.isEven_behindWord]

end SelectSql.Text
