import SelectSql.Proofs.Conditions
import SelectSql.Proofs.EscapeClauses
import SelectSql.Proofs.Filters

/-!
# SelectSql.Proofs.Negation

Negated predicates. Every atomic predicate has a flag that puts the negation into its text; where
it stands there is a matter of the kind of predicate (`Predicate.Denies`).

Design points:

* **Setting the flag negates a predicate** (`exists_write_marked`), and nothing else of its text
  or its values depends on the flag.
* **Only a NULL check is turned around** by `Predicate.negation`. Of the others the negation has
  the flag set, whether it was set before or not (`negation_eq`).

Main statement: `Predicate.isOpposite_negation_iff`.
-/

namespace SelectSql.Predicate

/-! ## Texts -/

/-- The second text is the first one with the negation put in. -/
inductive Denies : String → String → Prop
  | behindNot (test : String) : Denies test ("NOT " ++ test)
  | isNull (column : String) : Denies (column ++ " IS NULL") (column ++ " IS NOT NULL")
  | like (column rest : String) {word : String} (h : word = "LIKE" ∨ word = "ILIKE") :
      Denies (column ++ " " ++ word ++ " " ++ rest) (column ++ " NOT " ++ word ++ " " ++ rest)
  | isIn (column set : String) :
      Denies (column ++ " IN (" ++ set ++ ")") (column ++ " NOT IN (" ++ set ++ ")")
  /-- Nothing is in the empty set. -/
  | emptySet : Denies "1 = 0" "1 = 1"

/-- One of two texts is the other with the negation put in. -/
def IsOpposite (s t : String) : Prop :=
  Denies s t ∨ Denies t s

theorem Denies.ne {s t : String} (h : Denies s t) : s ≠ t := by
  intro heq
  have hlength := congrArg (fun text => text.toList.length) heq
  cases h with
  | emptySet => simp at heq
  | _ =>
      -- the negation makes the text longer
      simp only [String.toList_append, List.length_append] at hlength
      simp at hlength

theorem IsOpposite.symm {s t : String} (h : IsOpposite s t) : IsOpposite t s :=
  Or.symm h

/-- No text is its own opposite. -/
theorem IsOpposite.ne {s t : String} (h : IsOpposite s t) : s ≠ t := by
  rcases h with h | h
  · exact h.ne
  · exact h.ne.symm

/-! ## The flag -/

/-- The predicate with its flag set or not. -/
def marked (negated : Bool) : Predicate → Predicate
  | .comparison column op value _ => .comparison column op value negated
  | .columnComparison column op other _ => .columnComparison column op other negated
  | .nullCheck column _ => .nullCheck column negated
  | .fullText column value _ => .fullText column value negated
  | .pattern column value _ options => .pattern column value negated options
  | .inSet column source _ => .inSet column source negated
  | .anyOf alternatives => .anyOf alternatives

/-- Whether the predicate is a NULL check. -/
def isNullCheck : Predicate → Bool
  | .nullCheck _ _ => true
  | _ => false

theorem marked_isNegated (p : Predicate) : p.marked p.isNegated = p := by
  cases p <;> rfl

theorem negation_eq (p : Predicate) :
    p.negation = p.marked (if p.isNullCheck then !p.isNegated else true) := by
  cases p <;> rfl

theorem isAnyOf_negation (p : Predicate) : p.negation.isAnyOf = p.isAnyOf := by
  cases p <;> rfl

theorem negation_negation_eq (p : Predicate) :
    p.negation.negation = p.marked (if p.isNullCheck then p.isNegated else true) := by
  cases p with
  | nullCheck column negated => cases negated <;> rfl
  | _ => rfl

/-! ## Writing -/

/-- The texts, put together in another way. -/
theorem Denies.cast {s t s' t' : String} (h : Denies s t) (hs : s' = s) (ht : t' = t) :
    Denies s' t' := by
  rw [hs, ht]
  exact h

theorem denies_not (test : String) :
    Denies (Predicate.not false ++ test) (Predicate.not true ++ test) :=
  (Denies.behindNot test).cast (by simp [Predicate.not]) rfl

/-- The operator of a pattern match carries its negation, for every engine. -/
theorem denies_like (d : Dialect) (column pattern : String) (o : LikeOptions) :
    Denies (d.like column pattern o false) (d.like column pattern o true) := by
  have hdenies := Denies.like
    ((d.likeFrame o).before ++ column ++ (d.likeFrame o).behind)
    ((d.likeFrame o).opening ++ pattern ++ (d.likeFrame o).closing ++ " ESCAPE " ++
      d.escapeLiteral o.escape) (d.word_likeFrame o)
  refine hdenies.cast ?_ ?_ <;>
    simp [Dialect.like_eq, LikeFrame.text, LikeFrame.front, String.append_assoc]

theorem denies_membership (column set : String) :
    Denies (column ++ " " ++ Predicate.membership false ++ " (" ++ set ++ ")")
      (column ++ " " ++ Predicate.membership true ++ " (" ++ set ++ ")") := by
  refine (Denies.isIn column set).cast ?_ ?_ <;>
    simp [Predicate.membership, ← String.toList_inj]

/-- **Setting the flag negates a predicate**: with the flag the text is the one without it with
the negation put in, and the rest of the draft is the same. -/
theorem exists_write_marked {p : Predicate} (h : p.isAnyOf = false) (r : Rendering) (d : Draft) :
    ∃ (text : Bool → String) (after : Draft),
      (∀ negated, ((p.marked negated).write r).run d = (text negated, after)) ∧
        Denies (text false) (text true) := by
  cases p with
  | comparison column op value negated =>
      refine ⟨fun negated => Predicate.not negated ++
        (column ++ " " ++ op.symbol ++ " " ++ ((r.bind value).run d).1), ((r.bind value).run d).2,
        fun negated => ?_, denies_not _⟩
      rw [marked, Predicate.write, Writing.run_bind, Writing.run_pure]
      simp only [String.append_assoc]
  | columnComparison column op other negated =>
      refine ⟨fun negated => Predicate.not negated ++
        (column ++ " " ++ op.symbol ++ " " ++ other), d, fun negated => ?_, denies_not _⟩
      rw [marked, Predicate.write, Writing.run_pure]
      simp only [String.append_assoc]
  | nullCheck column negated =>
      refine ⟨fun negated => column ++ (if negated then " IS NOT NULL" else " IS NULL"), d,
        fun negated => ?_, Denies.isNull column⟩
      rw [marked, Predicate.write, Writing.run_pure]
  | fullText column value negated =>
      refine ⟨fun negated => Predicate.not negated ++ (r.dialect.compareText column value.length ++
        " = " ++ ((r.bind (.text value)).run d).1), ((r.bind (.text value)).run d).2,
        fun negated => ?_, denies_not _⟩
      rw [marked, Predicate.write, Writing.run_bind, Writing.run_pure]
      simp only [String.append_assoc]
  | pattern column value negated options =>
      refine ⟨fun negated =>
        r.dialect.like column ((r.bind (.text value)).run d).1 options negated,
        ((r.bind (.text value)).run d).2, fun negated => ?_, denies_like _ _ _ _⟩
      rw [marked, Predicate.write, Writing.run_bind, Writing.run_pure]
  | inSet column source negated =>
      by_cases hempty : source = .values []
      · subst hempty
        refine ⟨fun negated => if negated then "1 = 1" else "1 = 0", d, fun negated => ?_,
          Denies.emptySet⟩
        rw [marked, Predicate.write, Writing.run_pure]
      · refine ⟨fun negated => column ++ " " ++ Predicate.membership negated ++ " (" ++
          ((source.write r).run d).1 ++ ")", ((source.write r).run d).2, fun negated => ?_,
          denies_membership _ _⟩
        rw [marked, Predicate.write, Writing.run_bind, Writing.run_pure]
        exact hempty
  | anyOf ps => simp [isAnyOf] at h

/-! ## Reading -/

theorem leaves_negation (p : Predicate) : p.negation.leaves = p.leaves := by
  cases p with
  | inSet column source negated =>
      by_cases hempty : source = .values []
      · subst hempty
        rw [negation, leaves, leaves]
      · rw [negation, leaves, leaves] <;> exact hempty
  | _ => rfl

/-- The text of an atomic predicate is read as a literal. -/
theorem read_of_atomic {p : Predicate} (h : p.isAnyOf = false) (hplain : ∀ l ∈ p.leaves, l.Plain)
    (r : Rendering) (d : Draft) :
    Formula.read ((p.write r).run d).1 = some (Formula.literal ((p.write r).run d).1) :=
  (firm_write r h (fun l hl => (hplain l hl).uncut) d).read_eq

/-- Where NOT is put in front, it is read as the negation of what stands behind it. -/
theorem exists_read_negation {p : Predicate} (h : p.isAnyOf = false)
    (hplain : ∀ l ∈ p.leaves, l.Plain) (hflag : p.isNegated = false)
    (hnot : p.negation.hasNot = true) (r : Rendering) (d : Draft) :
    ∃ f, Formula.read ((p.write r).run d).1 = some f ∧
      Formula.read ((p.negation.write r).run d).1 = some (.not f) := by
  have hatomic : p.negation.isAnyOf = false := p.isAnyOf_negation.trans h
  have hwithout : p.negation.withoutNot = p := by
    cases p <;> simp_all [negation, withoutNot, hasNot, isNegated]
  refine ⟨_, read_of_atomic h hplain r d, ?_⟩
  rw [read_of_atomic hatomic (by rwa [leaves_negation]) r d, write_withoutNot, hwithout, hnot,
    Writing.run_bind, Writing.run_pure]
  exact congrArg some (Formula.literal_not _)

/-! ## Negating -/

/-- **The negation of an atomic predicate is written as its opposite exactly if its flag is not
set or it is a NULL check**; the negation of the negation is written as the predicate exactly if
the flag is set or it is a NULL check. What is written behind is the same either way. -/
theorem isOpposite_negation_iff {p : Predicate} (h : p.isAnyOf = false) (r : Rendering)
    (d : Draft) :
    (IsOpposite ((p.write r).run d).1 ((p.negation.write r).run d).1 ↔
        (p.isNegated = true → p.isNullCheck = true)) ∧
      (((p.negation.negation.write r).run d).1 = ((p.write r).run d).1 ↔
        p.isNegated = true ∨ p.isNullCheck = true) ∧
      ((p.negation.write r).run d).2 = ((p.write r).run d).2 ∧
      (p.isNegated = false → p.negation.hasNot = true → (∀ l ∈ p.leaves, l.Plain) →
        ∃ f, Formula.read ((p.write r).run d).1 = some f ∧
          Formula.read ((p.negation.write r).run d).1 = some (.not f)) := by
  obtain ⟨text, after, hrun, hdenies⟩ := exists_write_marked h r d
  have hself : (p.write r).run d = (text p.isNegated, after) := by
    rw [← hrun p.isNegated, marked_isNegated]
  have hnegation := hrun (if p.isNullCheck then !p.isNegated else true)
  have htwice := hrun (if p.isNullCheck then p.isNegated else true)
  rw [← negation_eq] at hnegation
  rw [← negation_negation_eq] at htwice
  refine ⟨?_, ?_, by rw [hnegation, hself], fun hflag hnot hplain =>
    exists_read_negation h hplain hflag hnot r d⟩
  · have hopposite : IsOpposite (text false) (text true) := .inl hdenies
    rw [hself, hnegation]
    cases hflag : p.isNegated <;> cases hnull : p.isNullCheck
    case true.false =>
      -- the flag was set before, so the negation is the predicate itself
      simpa using fun hsame : IsOpposite (text true) (text true) => hsame.ne rfl
    case true.true => simpa using hopposite.symm
    all_goals simpa using hopposite
  · rw [hself, htwice]
    cases hflag : p.isNegated <;> cases hnull : p.isNullCheck
    case false.false => simpa using hdenies.ne.symm
    all_goals simp

theorem isOpposite_negation_iff_comparison :
    (comparison "a" .eq (.int 1) false).isAnyOf = false ∧
      IsOpposite (((comparison "a" .eq (.int 1) false).write ⟨.generic, .bound⟩).run {}).1
        (((comparison "a" .eq (.int 1) false).negation.write ⟨.generic, .bound⟩).run {}).1 ∧
      ∃ f, Formula.read
            (((comparison "a" .eq (.int 1) false).write ⟨.generic, .bound⟩).run {}).1 = some f ∧
          Formula.read
            (((comparison "a" .eq (.int 1) false).negation.write ⟨.generic, .bound⟩).run {}).1 =
              some (.not f) := by
  have hatomic : (comparison "a" .eq (.int 1) false).isAnyOf = false := rfl
  have hplain : ∀ l ∈ (comparison "a" .eq (.int 1) false).leaves, l.Plain := by decide
  obtain ⟨hopposite, -, -, hread⟩ := isOpposite_negation_iff hatomic ⟨.generic, .bound⟩ {}
  exact ⟨hatomic, hopposite.2 (by simp [isNegated]), hread rfl rfl hplain⟩

/-- The negation of `NOT a = 1` is `NOT a = 1`. -/
theorem negation_negation_comparison :
    ¬ ∀ (p : Predicate) (r : Rendering) (d : Draft), p.isAnyOf = false →
      IsOpposite ((p.write r).run d).1 ((p.negation.write r).run d).1 ∧
        ((p.negation.negation.write r).run d).1 = ((p.write r).run d).1 := by
  intro h
  have htwice := (h (.comparison "a" .eq (.int 1) false) ⟨.generic, .bound⟩ {} rfl).2
  have hflagged : (((comparison "a" .eq (.int 1) false).negation.negation.write
      ⟨.generic, .bound⟩).run {}).1 = "NOT a = ?" := rfl
  have hplain : (((comparison "a" .eq (.int 1) false).write ⟨.generic, .bound⟩).run {}).1 =
      "a = ?" := rfl
  rw [hflagged, hplain] at htwice
  exact absurd htwice (by decide)

end SelectSql.Predicate
