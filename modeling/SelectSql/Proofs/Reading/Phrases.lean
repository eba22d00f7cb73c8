import SelectSql.Proofs.Reading
import Mathlib.Data.List.Forall2

/-!
# SelectSql.Proofs.Reading.Phrases

Texts that are read the same everywhere, and how they are put together: with a space or
with keywords between them, and in parentheses.

A *phrase* is such a text that AND and OR do not cut. A phrase is *firm* if more is left
of it than a group when the NOTs in front are taken off; it is read as its literal
(`Reads.factor_eq_literal`). Spaces between phrases give a phrase, which is firm if one
of them is (`Firm.intercalate`).

The literal of a text is the atom known by the text (`Formula.literal_eq_atom`), and each
NOT in front of it negates (`Formula.literal_not`).
-/

namespace SelectSql

open Text (insideAfter)
open Formula (Uncut separated keyword space combine factor literal)

/-- Reading `cs` adds `parts`, wherever it stands. -/
structure Reads (cs : List Char) (parts : List Part) : Prop where
  balanced : insideAfter false cs = false
  run : ∀ s : Reading,
    (lex false cs).foldlM Reading.step s = some ⟨s.parts ++ parts, s.outer⟩

namespace Reads

variable {xs ys : List Char} {ps qs : List Part}

/-- A text with balanced quotes and parentheses is read the same everywhere. -/
theorem exists_parts (hquotes : insideAfter false xs = false)
    (hparens : Text.Nested (Text.signs false xs)) : ∃ parts, Reads xs parts := by
  have hdepth : Token.depthAfter ({} : Reading).outer.length (lex false xs) = some 0 := by
    rw [depthAfter_lex]
    exact hparens
  obtain ⟨⟨parts, outer⟩, hrun, hlen⟩ := Reading.exists_run hdepth
  obtain rfl := List.length_eq_zero_iff.1 hlen
  -- reading the text by itself decides how it is read behind anything else
  refine ⟨parts, hquotes, fun s => ?_⟩
  have hunder := Reading.run_under s.parts s.outer hrun
  simpa [Reading.under] using hunder

/-- The parts hold the tokens of the text. -/
theorem tokens_eq (h : Reads xs ps) : Formula.tokens ps = lex false xs := by
  have hrun := Reading.consumed_run (h.run {})
  simpa [Reading.consumed, Formula.tokens] using hrun

/-- What a whole text is read as. -/
theorem read_eq {text : String} (h : Reads text.toList ps) :
    Formula.read text = some (combine ps) := by
  rw [Formula.read, h.balanced, if_neg Bool.false_ne_true, h.run]
  simp

theorem nil : Reads [] [] where
  balanced := rfl
  run s := by simp

/-- Texts with a space between them. -/
theorem append_space (hx : Reads xs ps) (hy : Reads ys qs) :
    Reads (xs ++ ' ' :: ys) (ps ++ space :: qs) where
  balanced := by
    rw [Text.insideAfter_append, hx.balanced, Text.insideAfter_cons,
      Text.toggle_of_ne (by decide), hy.balanced]
  run s := by
    have hspace : IsSign ' ' := isSign_of_isBlank (by decide)
    have hstep (s : Reading) : s.step (.sign ' ') = some ⟨s.parts ++ [space], s.outer⟩ := rfl
    rw [lex_append_sign hspace hx.balanced, List.foldlM_append, hx.run, Option.bind_eq_bind,
      Option.bind_some, List.foldlM_cons, hstep, Option.bind_eq_bind, Option.bind_some, hy.run]
    simp

/-- A text in parentheses behind another is a group behind its parts. -/
theorem append_parens (hx : Reads xs ps) (hy : Reads ys qs) :
    Reads (xs ++ '(' :: (ys ++ [')'])) (ps ++ [.group (Formula.tokens qs) (combine qs)]) where
  balanced := by
    rw [Text.insideAfter_append, hx.balanced, Text.insideAfter_cons,
      Text.toggle_of_ne (by decide), Text.insideAfter_append, hy.balanced]
    rfl
  run s := by
    have hopen : IsSign '(' := ⟨by decide, by decide⟩
    have hclose : IsSign ')' := ⟨by decide, by decide⟩
    rw [lex_append_sign hopen hx.balanced, lex_append_sign hclose hy.balanced,
      List.foldlM_append, hx.run, Option.bind_eq_bind, Option.bind_some, List.foldlM_cons]
    have hin : Reading.step ⟨s.parts ++ ps, s.outer⟩ (.sign '(') =
        some ⟨[], (s.parts ++ ps) :: s.outer⟩ := rfl
    rw [hin, Option.bind_eq_bind, Option.bind_some, List.foldlM_append, hy.run,
      Option.bind_eq_bind, Option.bind_some, List.nil_append, List.foldlM_cons]
    have hout : Reading.step ⟨qs, (s.parts ++ ps) :: s.outer⟩ (.sign ')') =
        some ⟨s.parts ++ ps ++ [.group (Formula.tokens qs) (combine qs)], s.outer⟩ := rfl
    rw [hout]
    simp

/-- Tokens other than parentheses are parts. -/
theorem of_tokens (hquotes : insideAfter false xs = false)
    (h : ∀ t ∈ lex false xs, t ≠ .sign '(' ∧ t ≠ .sign ')') :
    Reads xs ((lex false xs).map .token) where
  balanced := hquotes
  run := by
    generalize lex false xs = ts at h
    induction ts with
    | nil => intro s; simp
    | cons t ts ih =>
        intro s
        obtain ⟨hopen, hclose⟩ := h t (by simp)
        have hstep : s.step t = some ⟨s.parts ++ [.token t], s.outer⟩ :=
          Reading.step_eq_some_iff.2 (.token hopen hclose)
        rw [List.foldlM_cons, hstep, Option.bind_eq_bind, Option.bind_some,
          ih fun u hu => h u (by simp [hu])]
        simp

/-- Texts with a keyword between them. -/
theorem separated {s : String} (hs : Reads s.toList [keyword s]) {texts : List (List Char)}
    {runs : List (List Part)} (h : List.Forall₂ Reads texts runs) :
    Reads ((' ' :: (s.toList ++ [' '])).intercalate texts) (separated s runs) := by
  induction h with
  | nil => exact nil
  | @cons text run texts runs hrun hruns ih =>
      cases hruns with
      | nil => simpa [Formula.separated] using hrun
      | @cons next nextRun texts runs hnext hruns =>
          have hall := hrun.append_space (hs.append_space ih)
          rw [List.intercalate_cons_cons]
          simpa [Formula.separated] using hall

end Reads

/-! ## Atoms -/

/-- A part that is left when blanks and NOTs in front are taken off, and is no group. -/
def Part.isFirm : Part → Bool
  | .token t => !t.isBlank && !t.isKeyword "NOT"
  | .group _ _ => false

namespace Formula

theorem tokens_map_token (ts : List Token) : tokens (ts.map .token) = ts := by
  induction ts with
  | nil => rfl
  | cons t ts ih => exact congrArg (t :: ·) ih

theorem primary_token (t : Token) (parts : List Part) :
    primary (.token t :: parts) =
      atom (String.ofList ((tokens (.token t :: parts)).flatMap Token.chars)) := by
  cases parts <;> rfl

theorem primary_group {parts : List Part} (h : parts ≠ []) (inner : List Token) (f : Formula) :
    primary (.group inner f :: parts) =
      atom (String.ofList ((tokens (.group inner f :: parts)).flatMap Token.chars)) := by
  cases parts with
  | nil => exact absurd rfl h
  | cons p parts => rfl

/-- A group with something behind it is the beginning of an atom, like its tokens. -/
theorem negations_group {parts : List Part} (h : parts ≠ []) (inner : List Token)
    (meaning : Formula) :
    negations ((tokens (.group inner meaning :: parts)).map .token) =
      negations (.group inner meaning :: parts) := by
  have htokens : (tokens (.group inner meaning :: parts)).map Part.token =
      .token (.sign '(') :: (inner ++ .sign ')' :: tokens parts).map .token := by
    simp [tokens, Part.tokens]
  have hback : tokens (.token (.sign '(') :: (inner ++ .sign ')' :: tokens parts).map .token) =
      tokens (.group inner meaning :: parts) := by
    rw [← htokens, tokens_map_token]
  have hblank : Part.isBlank (.token (.sign '(')) = false := by decide
  have hnot : Part.isKeyword "NOT" (.token (.sign '(')) = false := rfl
  rw [htokens, negations, hblank, hnot, primary_token, hback, negations, Part.isBlank,
    Part.isKeyword, primary_group h]
  rfl

/-- Parts that hold something firm are an atom, so groups in them do not matter. -/
theorem negations_map_tokens {parts : List Part} (h : ∃ p ∈ parts, p.isFirm = true) :
    negations ((tokens parts).map .token) = negations parts := by
  induction parts with
  | nil => simp at h
  | cons p parts ih =>
      obtain ⟨q, hq, hfirm⟩ := h
      cases p with
      | token t =>
          -- what is taken off in front is not the firm part
          have hrest : Part.isFirm (.token t) = false → ∃ p ∈ parts, p.isFirm = true := by
            intro ht
            rcases List.mem_cons.1 hq with rfl | hq
            · rw [ht] at hfirm
              contradiction
            · exact ⟨q, hq, hfirm⟩
          have htokens : (tokens (.token t :: parts)).map Part.token =
              .token t :: (tokens parts).map .token := rfl
          rw [htokens, negations, negations]
          cases hblank : Part.isBlank (.token t) with
          | true => exact ih (hrest (by simp [Part.isFirm, show t.isBlank = true from hblank]))
          | false =>
              cases hnot : Part.isKeyword "NOT" (.token t) with
              | true =>
                  exact congrArg not
                    (ih (hrest (by simp [Part.isFirm, show t.isKeyword "NOT" = true from hnot])))
              | false =>
                  have hback : tokens (.token t :: (tokens parts).map .token) =
                      tokens (.token t :: parts) := congrArg (t :: ·) (tokens_map_token _)
                  simp only [Bool.false_eq_true, if_false, primary_token, hback]
      | group inner meaning =>
          -- with the firm part behind it the group is no condition by itself
          have hparts : parts ≠ [] := by
            rintro rfl
            obtain rfl := List.mem_singleton.1 hq
            simp [Part.isFirm] at hfirm
          exact negations_group hparts inner meaning

/-- Trimmed parts have trimmed tokens. -/
theorem trimmed_tokens {parts : List Part} (h : Text.Trimmed Part.isBlank parts) :
    Text.Trimmed Part.isBlank ((tokens parts).map .token) := by
  constructor
  · cases parts with
    | nil => simp [tokens]
    | cons p parts =>
        intro q hq
        have hp := h.head p rfl
        cases p with
        | token t =>
            obtain rfl : .token t = q := by simpa [tokens, Part.tokens] using hq
            exact hp
        | group inner meaning =>
            obtain rfl : .token (.sign '(') = q := by simpa [tokens, Part.tokens] using hq
            decide
  · rcases List.eq_nil_or_concat parts with rfl | ⟨parts, p, rfl⟩
    · simp [tokens]
    · rw [List.concat_eq_append] at h ⊢
      intro q hq
      have hp := h.last p (by simp)
      cases p with
      | token t =>
          obtain rfl : .token t = q := by simpa [tokens, Part.tokens] using hq
          exact hp
      | group inner meaning =>
          have hlast : (tokens (parts ++ [.group inner meaning])).map Part.token =
              (tokens parts ++ .sign '(' :: inner).map .token ++ [.token (.sign ')')] := by
            simp [tokens, Part.tokens]
          rw [hlast, List.getLast?_concat] at hq
          obtain rfl := Option.some.inj hq
          decide

/-- The tokens of blanks are blanks. -/
theorem isBlank_tokens {parts : List Part} (h : ∀ p ∈ parts, p.isBlank = true) :
    ∀ p ∈ (tokens parts).map Part.token, p.isBlank = true := by
  intro q hq
  obtain ⟨t, ht, rfl⟩ := List.mem_map.1 hq
  obtain ⟨p, hp, htp⟩ := List.mem_flatMap.1 ht
  have hblank := h p hp
  cases p with
  | token u =>
      obtain rfl := List.mem_singleton.1 htp
      exact hblank
  | group inner meaning => simp [Part.isBlank] at hblank

theorem isBlank_of_isFirm {p : Part} (h : p.isFirm = true) : p.isBlank = false := by
  cases p with
  | token t =>
      simp only [Part.isFirm, Bool.and_eq_true, Bool.not_eq_true'] at h
      exact h.1
  | group inner meaning => rfl

/-- Trimming drops nothing firm. -/
theorem exists_isFirm_trimBy {parts : List Part} (h : ∃ p ∈ parts, p.isFirm = true) :
    ∃ p ∈ Text.trimBy Part.isBlank parts, p.isFirm = true := by
  obtain ⟨front, back, heq, hfront, hback, -⟩ := Text.exists_trimBy Part.isBlank parts
  obtain ⟨p, hp, hfirm⟩ := h
  have hnot : ∀ {l : List Part}, (∀ p ∈ l, p.isBlank = true) → p ∉ l := by
    intro l hl hmem
    have hblank := hl p hmem
    rw [isBlank_of_isFirm hfirm] at hblank
    contradiction
  rw [heq, List.mem_append, List.mem_append] at hp
  exact ⟨p, (hp.resolve_right (hnot hback)).resolve_left (hnot hfront), hfirm⟩

/-- Parts that hold something firm mean what their tokens mean as an atom. -/
theorem factor_map_tokens {parts : List Part} (h : ∃ p ∈ parts, p.isFirm = true) :
    factor ((tokens parts).map .token) = factor parts := by
  obtain ⟨front, back, heq, hfront, hback, htrim⟩ := Text.exists_trimBy Part.isBlank parts
  have hsplit : (tokens parts).map Part.token =
      (tokens front).map .token ++ (tokens (Text.trimBy Part.isBlank parts)).map .token ++
        (tokens back).map .token :=
    (congrArg (fun l => (tokens l).map Part.token) heq).trans (by simp [tokens])
  rw [hsplit, factor_blanks (isBlank_tokens hfront) (isBlank_tokens hback), factor, factor,
    Text.trimBy_eq_self (trimmed_tokens htrim), negations_map_tokens (exists_isFirm_trimBy h)]

theorem negations_blanks {front : List Part} (h : ∀ p ∈ front, p.isBlank = true)
    (parts : List Part) : negations (front ++ parts) = negations parts := by
  induction front with
  | nil => rfl
  | cons p front ih =>
      rw [List.cons_append, negations, h p (by simp), if_pos rfl]
      exact ih fun q hq => h q (by simp [hq])

/-- NOT and a space in front negate. -/
theorem factor_not (parts : List Part) :
    factor (keyword "NOT" :: space :: parts) = not (factor parts) := by
  obtain ⟨front, back, heq, hfront, hback, htrim⟩ := Text.exists_trimBy Part.isBlank parts
  have hspaces : ∀ p ∈ space :: front, p.isBlank = true := by
    simp only [List.forall_mem_cons]
    exact ⟨by decide, hfront⟩
  have hnegations (l : List Part) :
      negations (keyword "NOT" :: l) = not (negations l) := rfl
  cases hmid : Text.trimBy Part.isBlank parts with
  | nil =>
      -- nothing but blanks is left behind the NOT
      have hall : keyword "NOT" :: space :: parts =
          [] ++ [keyword "NOT"] ++ (space :: front ++ back) := by
        rw [heq, hmid]
        simp
      have hend : ∀ p ∈ space :: front ++ back, p.isBlank = true := by
        intro p hp
        rcases List.mem_append.1 hp with hp | hp
        · exact hspaces p hp
        · exact hback p hp
      rw [hall, factor_blanks (by simp) hend, factor, factor, hmid]
      rfl
  | cons p mid =>
      have hall : keyword "NOT" :: space :: parts =
          [] ++ (keyword "NOT" :: (space :: front ++ p :: mid)) ++ back := by
        rw [heq, hmid]
        simp
      have htrimmed : Text.Trimmed Part.isBlank
          (keyword "NOT" :: (space :: front ++ p :: mid)) := by
        constructor
        · intro q hq
          obtain rfl : keyword "NOT" = q := by simpa using hq
          decide
        · rw [hmid] at htrim
          intro q hq
          rw [← List.cons_append, List.getLast?_append] at hq
          exact htrim.last q (by simpa using hq)
      rw [hall, factor, Text.trimBy_append (by simp) hback htrimmed, hnegations,
        negations_blanks hspaces, factor, hmid]

/-- **NOT in front of a text negates** what the text means. -/
theorem literal_not (text : String) : literal ("NOT " ++ text) = not (literal text) := by
  have hspace : IsSign ' ' := isSign_of_isBlank (by decide)
  have htext : ("NOT " ++ text).toList = "NOT".toList ++ ' ' :: text.toList := by
    simp
  rw [literal, htext, lex_append_sign hspace (by decide), literal, ← factor_not]
  rfl

/-- Blanks around a balanced text do not matter. -/
theorem factor_lex_trim {cs : List Char} (h : insideAfter false cs = false) :
    factor ((lex false cs).map .token) = factor ((lex false (Text.trimChars cs)).map .token) := by
  obtain ⟨front, back, heq, hfront, hback, -⟩ := Text.exists_trimBy Text.isBlank cs
  rw [← Text.trimChars_eq_trimBy] at heq
  have hside : insideAfter false (Text.trimChars cs) = false := by
    rw [(Text.signs_trimChars cs).2, h]
  have hsigns : ∀ {l : List Char}, (∀ c ∈ l, Text.isBlank c = true) →
      ∀ p ∈ (l.map Token.sign).map Part.token, p.isBlank = true := by
    intro l hl p hp
    obtain ⟨t, ht, rfl⟩ := List.mem_map.1 hp
    obtain ⟨c, hc, rfl⟩ := List.mem_map.1 ht
    exact hl c hc
  have hlex : lex false cs =
      front.map .sign ++ lex false (Text.trimChars cs) ++ back.map .sign := by
    rw [List.append_assoc, ← lex_append_blanks hback hside, ← lex_blanks_append hfront,
      ← List.append_assoc, ← heq]
  rw [hlex, List.map_append, List.map_append, factor_blanks (hsigns hfront) (hsigns hback)]

/-- A trimmed text is an atom unless it begins with a NOT. -/
theorem factor_lex_trimmed {cs : List Char} (h : Text.Trimmed Text.isBlank cs)
    (hfirst : ∀ t ∈ (lex false cs).head?, t.isKeyword "NOT" = false) :
    factor ((lex false cs).map .token) = atom (String.ofList cs) := by
  have hchars := chars_lex false cs
  have htokens := trimmed_lex h false
  generalize lex false cs = ts at hchars htokens hfirst
  have hparts : Text.Trimmed Part.isBlank (ts.map .token) := by
    constructor
    · intro p hp
      rw [List.head?_map] at hp
      obtain ⟨t, ht, rfl⟩ := Option.map_eq_some_iff.1 hp
      exact htokens.head t ht
    · intro p hp
      rw [List.getLast?_map] at hp
      obtain ⟨t, ht, rfl⟩ := Option.map_eq_some_iff.1 hp
      exact htokens.last t ht
  rw [factor, Text.trimBy_eq_self hparts, ← hchars]
  cases ts with
  | nil => rfl
  | cons t ts =>
      have hblank : Part.isBlank (.token t) = false := htokens.head t rfl
      have hnot : Part.isKeyword "NOT" (.token t) = false := hfirst t rfl
      have hback : tokens (.token t :: ts.map .token) = t :: ts := tokens_map_token (t :: ts)
      rw [List.map_cons, negations, hblank, hnot, primary_token, hback]
      rfl

/-- **A text is an atom, known by its trimmed text**, unless it begins with a NOT. -/
theorem literal_eq_atom {text : String} (h : insideAfter false text.toList = false)
    (hfirst : ∀ t ∈ (lex false (Text.trimChars text.toList)).head?, t.isKeyword "NOT" = false) :
    literal text = atom (Text.trim text) := by
  obtain ⟨-, -, -, -, -, htrim⟩ := Text.exists_trimBy Text.isBlank text.toList
  rw [← Text.trimChars_eq_trimBy] at htrim
  rw [literal, factor_lex_trim h, factor_lex_trimmed htrim hfirst]
  rfl

end Formula

/-- A text with something firm is an atom. -/
theorem Reads.factor_eq_literal {text : String} {parts : List Part}
    (h : Reads text.toList parts) (hfirm : ∃ p ∈ parts, p.isFirm = true) :
    factor parts = literal text := by
  rw [literal, ← h.tokens_eq, Formula.factor_map_tokens hfirm]

/-! ## Phrases -/

/-- A text that is read the same everywhere and that AND and OR do not cut. -/
def Phrase (cs : List Char) : Prop :=
  ∃ parts, Reads cs parts ∧ Uncut parts

/-- A phrase of which something is left that is no group. -/
def Firm (cs : List Char) : Prop :=
  ∃ parts, Reads cs parts ∧ Uncut parts ∧ ∃ p ∈ parts, p.isFirm = true

/-- A firm text is read as its literal. -/
theorem Firm.exists_reads {text : String} (h : Firm text.toList) :
    ∃ parts, Reads text.toList parts ∧ Uncut parts ∧ factor parts = literal text := by
  obtain ⟨parts, hreads, huncut, hfirm⟩ := h
  exact ⟨parts, hreads, huncut, hreads.factor_eq_literal hfirm⟩

theorem Firm.read_eq {text : String} (h : Firm text.toList) :
    Formula.read text = some (literal text) := by
  obtain ⟨parts, hreads, huncut, hfactor⟩ := h.exists_reads
  have hcombine : combine parts = factor parts :=
    Formula.combine_and (List.cons_ne_nil parts []) (by simpa using huncut)
  rw [hreads.read_eq, hcombine, hfactor]

variable {xs ys : List Char}

theorem Firm.phrase (h : Firm xs) : Phrase xs :=
  let ⟨parts, hreads, huncut, _⟩ := h
  ⟨parts, hreads, huncut⟩

theorem uncut_append {ps qs : List Part} (hp : Uncut ps) (hq : Uncut qs) : Uncut (ps ++ qs) := by
  intro p h
  rcases List.mem_append.1 h with h | h
  · exact hp p h
  · exact hq p h

theorem uncut_space : Uncut [space] := by
  intro p hp
  obtain rfl := List.mem_singleton.1 hp
  exact ⟨rfl, rfl⟩

theorem uncut_group (inner : List Token) (f : Formula) : Uncut [.group inner f] := by
  intro p hp
  obtain rfl := List.mem_singleton.1 hp
  exact ⟨rfl, rfl⟩

/-- Tokens other than AND and OR are not cut. -/
theorem Reads.uncut {parts : List Part} (h : Reads xs parts)
    (hwords : ∀ t ∈ lex false xs, t.isKeyword "AND" = false ∧ t.isKeyword "OR" = false) :
    Uncut parts := by
  intro p hp
  cases p with
  | token t =>
      have ht : t ∈ Formula.tokens parts := List.mem_flatMap.2 ⟨_, hp, List.mem_singleton_self t⟩
      rw [h.tokens_eq] at ht
      exact hwords t ht
  | group inner meaning => exact ⟨rfl, rfl⟩

theorem Phrase.of_nested (hquotes : insideAfter false xs = false)
    (hparens : Text.Nested (Text.signs false xs))
    (hwords : ∀ t ∈ lex false xs, t.isKeyword "AND" = false ∧ t.isKeyword "OR" = false) :
    Phrase xs := by
  obtain ⟨parts, hreads⟩ := Reads.exists_parts hquotes hparens
  exact ⟨parts, hreads, hreads.uncut hwords⟩

/-- A text without parentheses, AND and OR, one of whose tokens is firm. -/
def Solid (cs : List Char) : Prop :=
  insideAfter false cs = false ∧
    (∀ t ∈ lex false cs, (t ≠ .sign '(' ∧ t ≠ .sign ')') ∧
      t.isKeyword "AND" = false ∧ t.isKeyword "OR" = false) ∧
    ∃ t ∈ lex false cs, Part.isFirm (.token t) = true

instance (cs : List Char) : Decidable (Solid cs) :=
  inferInstanceAs (Decidable (_ ∧ _ ∧ _))

theorem Solid.firm (h : Solid xs) : Firm xs := by
  obtain ⟨hquotes, htokens, t, ht, hfirm⟩ := h
  have hreads := Reads.of_tokens hquotes fun t ht => (htokens t ht).1
  exact ⟨_, hreads, hreads.uncut fun t ht => (htokens t ht).2, .token t,
    List.mem_map_of_mem ht, hfirm⟩

/-- A text in parentheses behind a phrase, as in a call. -/
theorem Phrase.append_parens (hx : Phrase xs) (hquotes : insideAfter false ys = false)
    (hparens : Text.Nested (Text.signs false ys)) : Phrase (xs ++ '(' :: (ys ++ [')'])) := by
  obtain ⟨ps, hps, huncut⟩ := hx
  obtain ⟨qs, hqs⟩ := Reads.exists_parts hquotes hparens
  exact ⟨_, hps.append_parens hqs, uncut_append huncut (uncut_group _ _)⟩

theorem Phrase.nil : Phrase [] :=
  ⟨[], Reads.nil, by simp [Uncut]⟩

/-- Phrases with a space between them. -/
theorem Phrase.spaced (hx : Phrase xs) (hy : Phrase ys) : Phrase (xs ++ ' ' :: ys) := by
  obtain ⟨ps, hps, hpsUncut⟩ := hx
  obtain ⟨qs, hqs, hqsUncut⟩ := hy
  exact ⟨_, hps.append_space hqs, uncut_append hpsUncut (uncut_append uncut_space hqsUncut)⟩

theorem Firm.spaced (hx : Phrase xs) (hy : Phrase ys) (h : Firm xs ∨ Firm ys) :
    Firm (xs ++ ' ' :: ys) := by
  have hjoin {ps qs : List Part} (hps : Reads xs ps) (hqs : Reads ys qs) (hp : Uncut ps)
      (hq : Uncut qs) (hfirm : ∃ p, (p ∈ ps ∨ p ∈ qs) ∧ p.isFirm = true) :
      Firm (xs ++ ' ' :: ys) := by
    obtain ⟨p, hmem, hfirm⟩ := hfirm
    refine ⟨_, hps.append_space hqs, uncut_append hp (uncut_append uncut_space hq), p, ?_,
      hfirm⟩
    rcases hmem with hmem | hmem <;> simp [hmem]
  rcases h with ⟨ps, hps, hp, p, hmem, hfirm⟩ | ⟨qs, hqs, hq, p, hmem, hfirm⟩
  · obtain ⟨qs, hqs, hq⟩ := hy
    exact hjoin hps hqs hp hq ⟨p, .inl hmem, hfirm⟩
  · obtain ⟨ps, hps, hp⟩ := hx
    exact hjoin hps hqs hp hq ⟨p, .inr hmem, hfirm⟩

theorem Phrase.intercalate {texts : List (List Char)} (h : ∀ xs ∈ texts, Phrase xs) :
    Phrase ([' '].intercalate texts) := by
  induction texts with
  | nil => exact Phrase.nil
  | cons xs texts ih =>
      have hrest := ih fun ys hys => h ys (by simp [hys])
      cases texts with
      | nil => simpa using h xs (by simp)
      | cons ys texts =>
          rw [List.intercalate_cons_cons]
          simpa using (h xs (by simp)).spaced hrest

/-- Phrases with spaces between them are firm if one of them is. -/
theorem Firm.intercalate {texts : List (List Char)} (h : ∀ xs ∈ texts, Phrase xs)
    (hfirm : ∃ xs ∈ texts, Firm xs) : Firm ([' '].intercalate texts) := by
  induction texts with
  | nil => simp at hfirm
  | cons xs texts ih =>
      obtain ⟨zs, hzs, hfirm⟩ := hfirm
      have hphrases : ∀ ys ∈ texts, Phrase ys := fun ys hys => h ys (by simp [hys])
      cases texts with
      | nil =>
          obtain rfl := List.mem_singleton.1 hzs
          simpa using hfirm
      | cons ys texts =>
          have hone : Firm xs ∨ Firm ([' '].intercalate (ys :: texts)) := by
            rcases List.mem_cons.1 hzs with rfl | hzs
            · exact .inl hfirm
            · exact .inr (ih hphrases ⟨zs, hzs, hfirm⟩)
          have hall := Firm.spaced (h xs (by simp)) (Phrase.intercalate hphrases) hone
          rw [List.intercalate_cons_cons]
          simpa using hall

end SelectSql
