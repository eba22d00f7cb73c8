import SelectSql.Proofs.Conditions.Atoms

/-!
# SelectSql.Proofs.Conditions

The text of a condition means what its tree means: reading it with NOT before AND before
OR gives the conjunction of the predicates, each group of alternatives the disjunction of
its members.

Design points:

* **The tree has a formula** (`Predicate.formula`): the text is read as exactly this
  formula (`Predicate.read_formulas`), and it holds exactly if the tree does
  (`Predicate.run_meanings`).
* **Groups of alternatives are read from the inside out**, by induction on the tree
  (`Predicate.exists_reads`).

Main statement: `Predicate.read_writeConjunction`.
-/

namespace SelectSql

open Formula (Uncut separated keyword combine factor)

/-! ## Meaning -/

mutual

/-- Every group of alternatives, however deep, has a member. -/
def Predicate.GroupsFilled : Predicate → Prop
  | .anyOf ps => ps ≠ [] ∧ Predicate.GroupsFilledAll ps
  | _ => True

/-- Every group of alternatives among predicates has a member. -/
def Predicate.GroupsFilledAll : List Predicate → Prop
  | [] => True
  | p :: ps => p.GroupsFilled ∧ Predicate.GroupsFilledAll ps

end

/-- Whether a NOT stands in front of the text of a predicate. -/
def Predicate.hasNot : Predicate → Bool
  | .comparison _ _ _ negated => negated
  | .columnComparison _ _ _ negated => negated
  | .fullText _ _ negated => negated
  | _ => false

/-- The predicate without the NOT in front of its text. -/
def Predicate.withoutNot : Predicate → Predicate
  | .comparison column op value _ => .comparison column op value false
  | .columnComparison column op other _ => .columnComparison column op other false
  | .fullText column value _ => .fullText column value false
  | p => p

mutual

/-- Whether a predicate holds, given which atoms do: an atomic predicate is the atom that
it is written as (`Formula.literal_eq_atom`), turned around if a NOT stands in front of it;
a group holds if one of its members does. -/
def Predicate.meaning (r : Rendering) (truth : String → Bool) : Predicate → Writing Bool
  | .anyOf ps => do
    let members ← Predicate.meanings r truth ps
    return members.any id
  | p => do
    let text ← p.withoutNot.write r
    return (Formula.literal text).eval truth ^^ p.hasNot

/-- Which of some predicates hold. -/
def Predicate.meanings (r : Rendering) (truth : String → Bool) :
    List Predicate → Writing (List Bool)
  | [] => return []
  | p :: ps => do
    let b ← p.meaning r truth
    return b :: (← Predicate.meanings r truth ps)

end

/-! ## The formula of a condition -/

mutual

/-- The formula that the text of a predicate is read as: an atomic predicate is the literal
of its text, a group is one of its members. -/
def Predicate.formula (r : Rendering) : Predicate → Writing Formula
  | .anyOf ps => do
    let members ← Predicate.formulas r ps
    return Formula.any members
  | p => do
    let text ← p.write r
    return Formula.literal text

/-- The formulas of predicates. -/
def Predicate.formulas (r : Rendering) : List Predicate → Writing (List Formula)
  | [] => return []
  | p :: ps => do
    let f ← p.formula r
    return f :: (← Predicate.formulas r ps)

end

section Formulas

variable {r : Rendering} {truth : String → Bool} {d : Draft}

theorem Predicate.formula_of_atomic {p : Predicate} (h : p.isAnyOf = false) :
    p.formula r = do
      let text ← p.write r
      return Formula.literal text := by
  cases p with
  | anyOf ps => simp [Predicate.isAnyOf] at h
  | _ =>
      rw [Predicate.formula]
      simp

theorem Predicate.run_formula_of_atomic {p : Predicate} (h : p.isAnyOf = false) :
    (p.formula r).run d =
      (Formula.literal ((p.write r).run d).1, ((p.write r).run d).2) := by
  rw [Predicate.formula_of_atomic h]
  rfl

theorem Predicate.meaning_of_atomic {p : Predicate} (h : p.isAnyOf = false) :
    p.meaning r truth = do
      let text ← p.withoutNot.write r
      return (Formula.literal text).eval truth ^^ p.hasNot := by
  cases p with
  | anyOf ps => simp [Predicate.isAnyOf] at h
  | _ =>
      rw [Predicate.meaning]
      simp

theorem Predicate.write_withoutNot (r : Rendering) (p : Predicate) :
    p.write r = do
      let text ← p.withoutNot.write r
      return Predicate.not p.hasNot ++ text := by
  cases p with
  | comparison column op value negated =>
      cases negated <;> simp [Predicate.withoutNot, Predicate.hasNot, Predicate.write,
        Predicate.not, String.append_assoc]
  | columnComparison column op other negated =>
      cases negated <;> simp [Predicate.withoutNot, Predicate.hasNot, Predicate.write,
        Predicate.not, String.append_assoc]
  | fullText column value negated =>
      cases negated <;> simp [Predicate.withoutNot, Predicate.hasNot, Predicate.write,
        Predicate.not, String.append_assoc]
  | _ => simp [Predicate.withoutNot, Predicate.hasNot, Predicate.not]

theorem Predicate.run_meaning_of_atomic {p : Predicate} (h : p.isAnyOf = false) :
    (p.meaning r truth).run d =
      (((p.formula r).run d).1.eval truth, ((p.formula r).run d).2) := by
  rw [Predicate.run_formula_of_atomic h, Predicate.meaning_of_atomic h,
    Predicate.write_withoutNot r p]
  simp only [Writing.run_bind, Writing.run_pure]
  cases p.hasNot with
  | false => simp [Predicate.not]
  | true => simp [Predicate.not, Formula.literal_not, Formula.eval]

theorem Predicate.formulas_ne_nil {ps : List Predicate} (h : ps ≠ []) :
    ((Predicate.formulas r ps).run d).1 ≠ [] := by
  cases ps with
  | nil => exact absurd rfl h
  | cons p ps =>
      rw [Predicate.formulas]
      exact List.cons_ne_nil _ _

end Formulas

mutual

/-- The formula of a predicate is taken at the place of its text. -/
theorem Predicate.run_formula (r : Rendering) :
    (p : Predicate) → (d : Draft) → ((p.formula r).run d).2 = ((p.write r).run d).2
  | .anyOf ps, d => by
      rw [Predicate.formula, Predicate.write, Writing.run_bind, Writing.run_bind,
        Writing.run_pure, Writing.run_pure]
      exact Predicate.run_formulas r ps d
  | .comparison .., _ => by rw [Predicate.run_formula_of_atomic rfl]
  | .columnComparison .., _ => by rw [Predicate.run_formula_of_atomic rfl]
  | .nullCheck .., _ => by rw [Predicate.run_formula_of_atomic rfl]
  | .fullText .., _ => by rw [Predicate.run_formula_of_atomic rfl]
  | .pattern .., _ => by rw [Predicate.run_formula_of_atomic rfl]
  | .inSet .., _ => by rw [Predicate.run_formula_of_atomic rfl]

theorem Predicate.run_formulas (r : Rendering) :
    (ps : List Predicate) → (d : Draft) →
      ((Predicate.formulas r ps).run d).2 = ((Predicate.writeAll r ps).run d).2
  | [], _ => rfl
  | p :: ps, d => by
      have hp := Predicate.run_formula r p d
      have hps := Predicate.run_formulas r ps ((p.write r).run d).2
      rw [Predicate.formulas, Predicate.writeAll]
      simp only [Writing.run_bind, Writing.run_pure, hp, hps]

end

mutual

/-- **The formula of a predicate means what the predicate means.** -/
theorem Predicate.run_meaning (r : Rendering) (truth : String → Bool) :
    (p : Predicate) → p.GroupsFilled → (d : Draft) →
      (p.meaning r truth).run d = (((p.formula r).run d).1.eval truth, ((p.formula r).run d).2)
  | .anyOf ps, hfilled, d => by
      obtain ⟨hne, hfilled⟩ := hfilled
      have hmembers := Predicate.run_meanings r truth ps hfilled d
      rw [Predicate.meaning, Predicate.formula]
      simp only [Writing.run_bind, Writing.run_pure, hmembers,
        Formula.eval_any truth (Predicate.formulas_ne_nil hne), List.any_map]
      rfl
  | .comparison .., _, _ => Predicate.run_meaning_of_atomic rfl
  | .columnComparison .., _, _ => Predicate.run_meaning_of_atomic rfl
  | .nullCheck .., _, _ => Predicate.run_meaning_of_atomic rfl
  | .fullText .., _, _ => Predicate.run_meaning_of_atomic rfl
  | .pattern .., _, _ => Predicate.run_meaning_of_atomic rfl
  | .inSet .., _, _ => Predicate.run_meaning_of_atomic rfl

theorem Predicate.run_meanings (r : Rendering) (truth : String → Bool) :
    (ps : List Predicate) → Predicate.GroupsFilledAll ps → (d : Draft) →
      (Predicate.meanings r truth ps).run d =
        (((Predicate.formulas r ps).run d).1.map (Formula.eval truth),
          ((Predicate.formulas r ps).run d).2)
  | [], _, _ => rfl
  | p :: ps, hfilled, d => by
      have hp := Predicate.run_meaning r truth p hfilled.1 d
      have hps := Predicate.run_meanings r truth ps hfilled.2 ((p.formula r).run d).2
      rw [Predicate.meanings, Predicate.formulas]
      simp only [Writing.run_bind, Writing.run_pure, hp, hps, List.map_cons]

end

/-! ## Reading follows the tree -/

/-- The text of an atomic predicate is firm on any draft. -/
theorem Predicate.firm_write (r : Rendering) {p : Predicate} (hatomic : p.isAnyOf = false)
    (hleaves : ∀ l ∈ p.leaves, l.Uncut) (d : Draft) : Firm ((p.write r).run d).1.toList := by
  have htext := (Predicate.writes r p d d.bound.length fun _ => rfl).value
  rw [htext, String.toList_ofList]
  exact p.firm_doc r hatomic hleaves d.bound.length

theorem Predicate.exists_reads_of_atomic (r : Rendering) {p : Predicate}
    (hatomic : p.isAnyOf = false) (hleaves : ∀ l ∈ p.leaves, l.Uncut) (d : Draft) :
    ∃ parts, Reads ((p.write r).run d).1.toList parts ∧ Uncut parts ∧
      factor parts = ((p.formula r).run d).1 := by
  rw [Predicate.run_formula_of_atomic hatomic]
  exact (Predicate.firm_write r hatomic hleaves d).exists_reads

/-- A keyword between texts. -/
theorem Reads.keyword {s : String} (hquotes : Text.insideAfter false s.toList = false)
    (hlex : lex false s.toList = [.word s.toList]) : Reads s.toList [keyword s] := by
  have hreads := Reads.of_tokens hquotes (by rw [hlex]; simp)
  rwa [hlex] at hreads

/-- Texts with a connective between them, read. -/
theorem Reads.connected (connective : Connective) {texts : List String} {runs : List (List Part)}
    (h : List.Forall₂ Reads (texts.map String.toList) runs) :
    Reads ((" " ++ connective.keyword ++ " ").intercalate texts).toList
      (Formula.separated connective.keyword runs) := by
  have hword : Reads connective.keyword.toList [Formula.keyword connective.keyword] := by
    cases connective <;> exact Reads.keyword (by decide) (by decide)
  rw [String.toList_intercalate, String.toList_append, String.toList_append]
  exact Reads.separated hword h

/-- Some formulas are there if they are those of some parts. -/
theorem Predicate.ne_nil_of_map_factor {r : Rendering} {ps : List Predicate} {d : Draft}
    {runs : List (List Part)} (h : runs.map factor = ((Predicate.formulas r ps).run d).1)
    (hne : ps ≠ []) : runs ≠ [] := by
  rintro rfl
  exact Predicate.formulas_ne_nil hne h.symm

mutual

/-- Every predicate is read as its formula, and AND and OR do not cut it. -/
theorem Predicate.exists_reads (r : Rendering) : (p : Predicate) →
    (∀ l ∈ p.leaves, l.Uncut) → p.GroupsFilled → (d : Draft) →
    ∃ parts, Reads ((p.write r).run d).1.toList parts ∧ Uncut parts ∧
      factor parts = ((p.formula r).run d).1
  | .anyOf ps, hleaves, hfilled, d => by
      rw [Predicate.leaves] at hleaves
      obtain ⟨hne, hfilled⟩ := hfilled
      obtain ⟨runs, hreads, huncut, hformulas⟩ :=
        Predicate.exists_readsAll r ps hleaves hfilled d
      have hruns := Predicate.ne_nil_of_map_factor hformulas hne
      -- the parentheses of the group make one part, and its ORs are inside
      refine ⟨[.group (Formula.tokens (separated "OR" runs)) (combine (separated "OR" runs))],
        ?_, uncut_group _ _, ?_⟩
      · have hmembers : Reads (" OR ".intercalate ((Predicate.writeAll r ps).run d).1).toList
            (separated "OR" runs) := Reads.connected .or hreads
        rw [Predicate.write, Writing.run_bind, Writing.run_pure]
        simpa using Reads.nil.append_parens hmembers
      · have hfactor (ts : List Token) (f : Formula) : factor [.group ts f] = f := rfl
        rw [hfactor, Formula.combine_or hruns huncut, hformulas, Predicate.formula]
        rfl
  | .comparison .., hleaves, _, d => Predicate.exists_reads_of_atomic r rfl hleaves d
  | .columnComparison .., hleaves, _, d => Predicate.exists_reads_of_atomic r rfl hleaves d
  | .nullCheck .., hleaves, _, d => Predicate.exists_reads_of_atomic r rfl hleaves d
  | .fullText .., hleaves, _, d => Predicate.exists_reads_of_atomic r rfl hleaves d
  | .pattern .., hleaves, _, d => Predicate.exists_reads_of_atomic r rfl hleaves d
  | .inSet .., hleaves, _, d => Predicate.exists_reads_of_atomic r rfl hleaves d

theorem Predicate.exists_readsAll (r : Rendering) : (ps : List Predicate) →
    (∀ l ∈ Predicate.leavesAll ps, l.Uncut) → Predicate.GroupsFilledAll ps → (d : Draft) →
    ∃ runs, List.Forall₂ Reads (((Predicate.writeAll r ps).run d).1.map String.toList) runs ∧
      (∀ parts ∈ runs, Uncut parts) ∧ runs.map factor = ((Predicate.formulas r ps).run d).1
  | [], _, _, _ => ⟨[], .nil, by simp, rfl⟩
  | p :: ps, hleaves, hfilled, d => by
      rw [Predicate.leavesAll] at hleaves
      obtain ⟨hp, hps⟩ := hfilled
      obtain ⟨parts, hreads, huncut, hformula⟩ :=
        Predicate.exists_reads r p (fun l hl => hleaves l (List.mem_append_left _ hl)) hp d
      obtain ⟨runs, hreadsAll, huncutAll, hformulas⟩ :=
        Predicate.exists_readsAll r ps (fun l hl => hleaves l (List.mem_append_right _ hl)) hps
          ((p.write r).run d).2
      refine ⟨parts :: runs, .cons hreads hreadsAll, ?_, ?_⟩
      · simp only [List.forall_mem_cons]
        exact ⟨huncut, huncutAll⟩
      · rw [Predicate.formulas, List.map_cons, hformula, hformulas, ← Predicate.run_formula r p d]
        rfl

end

/-- **The text of a condition is read as all the formulas of its predicates.** -/
theorem Predicate.read_formulas (r : Rendering) (ps : List Predicate) (d : Draft)
    (hne : ps ≠ []) (hfilled : Predicate.GroupsFilledAll ps)
    (hplain : ∀ l ∈ Predicate.leavesAll ps, l.Plain) :
    Formula.read ((Predicate.writeConjunction r ps).run d).1 =
      some (Formula.all ((Predicate.formulas r ps).run d).1) := by
  have hleaves : ∀ l ∈ Predicate.leavesAll ps, l.Uncut := fun l hl => (hplain l hl).uncut
  by_cases hlone : ∃ qs, ps = [.anyOf qs]
  · -- the group stands without parentheses, so its ORs are those of the whole text
    obtain ⟨qs, rfl⟩ := hlone
    obtain ⟨⟨hqs, hfilled⟩, -⟩ := hfilled
    have hleaves' : ∀ l ∈ Predicate.leavesAll qs, l.Uncut := by
      simpa [Predicate.leavesAll, Predicate.leaves] using hleaves
    obtain ⟨runs, hreads, huncut, hformulas⟩ :=
      Predicate.exists_readsAll r qs hleaves' hfilled d
    have hruns := Predicate.ne_nil_of_map_factor hformulas hqs
    have hmembers : Reads (" OR ".intercalate ((Predicate.writeAll r qs).run d).1).toList
        (separated "OR" runs) := Reads.connected .or hreads
    rw [Predicate.writeConjunction, Writing.run_bind, Writing.run_pure,
      hmembers.read_eq, Formula.combine_or hruns huncut, hformulas,
      Predicate.formulas, Predicate.formulas, Predicate.formula]
    rfl
  · obtain ⟨runs, hreads, huncut, hformulas⟩ :=
      Predicate.exists_readsAll r ps hleaves hfilled d
    have hruns := Predicate.ne_nil_of_map_factor hformulas hne
    have hwrite : ((Predicate.writeConjunction r ps).run d).1 =
        " AND ".intercalate ((Predicate.writeAll r ps).run d).1 := by
      cases ps with
      | nil => exact absurd rfl hne
      | cons p ps =>
          rw [Predicate.writeConjunction, Predicate.writeAll]
          · rfl
          · intro qs hp hps
            exact hlone ⟨qs, by rw [hp, hps]⟩
    have hmembers : Reads (" AND ".intercalate ((Predicate.writeAll r ps).run d).1).toList
        (separated "AND" runs) := Reads.connected .and hreads
    rw [hwrite, hmembers.read_eq, Formula.combine_and hruns huncut, hformulas]

/-- **The text of a condition means what its tree means.** For any engine, in either mode
and on any draft, the text of a list of predicates is read as a formula that holds exactly
if all the predicates hold, a group of alternatives if one of its members does. -/
theorem Predicate.read_writeConjunction (r : Rendering) (ps : List Predicate) (d : Draft)
    (hne : ps ≠ []) (hfilled : Predicate.GroupsFilledAll ps)
    (hplain : ∀ l ∈ Predicate.leavesAll ps, l.Plain) :
    ∃ f, Formula.read ((Predicate.writeConjunction r ps).run d).1 = some f ∧
      ∀ truth, f.eval truth = ((Predicate.meanings r truth ps).run d).1.all id := by
  refine ⟨_, Predicate.read_formulas r ps d hne hfilled hplain, fun truth => ?_⟩
  rw [Formula.eval_all truth (Predicate.formulas_ne_nil hne),
    Predicate.run_meanings r truth ps hfilled d, List.all_map]
  rfl

/-- A nested query, a group in a group, a quoted OR and parentheses of the caller. -/
def Predicate.conditionSample : List Predicate :=
  [.comparison "LOWER(a)" .eq (.text "x OR y") true,
    .anyOf [.nullCheck "b" true,
      .anyOf [.inSet "c" (.query ⟨.table "t" none, {}, [],
          [.anyOf [.comparison "d" .lt (.int 1) false, .nullCheck "e" false]], ⟨[], []⟩, []⟩) true,
        .pattern "f" "%(" false {}]]]

theorem Predicate.read_conditionSample :
    ∃ f, Formula.read ((Predicate.writeConjunction ⟨.generic, .inline⟩ conditionSample).run {}).1 =
        some f ∧
      ∀ truth, f.eval truth =
        ((Predicate.meanings ⟨.generic, .inline⟩ truth conditionSample).run {}).1.all id := by
  have hplain : ∀ l ∈ Predicate.leavesAll conditionSample, l.Plain := by decide
  refine Predicate.read_writeConjunction ⟨.generic, .inline⟩ conditionSample {} ?_ ?_ hplain
  · simp [conditionSample]
  · simp [conditionSample, GroupsFilledAll, GroupsFilled]

end SelectSql
