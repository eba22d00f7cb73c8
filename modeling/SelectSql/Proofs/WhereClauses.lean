import SelectSql.Proofs.Clauses
import SelectSql.Proofs.Conditions
import SelectSql.Proofs.EscapeClauses

/-!
# SelectSql.Proofs.WhereClauses

What becomes of the conditions of a query in its statement. Whether there is a WHERE clause is
decided by the text of the condition, not by the predicates that are recorded.

Design points:

* **The text of a predicate has a word** (`Predicate.worded_write`), whatever its columns are, so
  it cannot be overlooked. Only a group without members leaves nothing but its parentheses
  (`Predicate.write_eq_parens_iff`).
* **A single group stands without parentheses**, so without members it leaves nothing at all, and
  the query is not filtered (`Query.run_write_of_noAlternatives`).

Main statement: `Query.filtered_iff`.
-/

namespace SelectSql

/-! ## The operands of a condition -/

namespace Predicate

/-- A predicate is among some predicates or, at any depth, among the members of their groups. -/
inductive Within (p : Predicate) : List Predicate → Prop
  | here {ps : List Predicate} (h : p ∈ ps) : Within p ps
  | inside {ps qs : List Predicate} (h : .anyOf qs ∈ ps) (hp : Within p qs) : Within p ps

theorem Within.cons {p q : Predicate} {ps : List Predicate} (h : Within p ps) :
    Within p (q :: ps) := by
  cases h with
  | here h => exact .here (List.mem_cons_of_mem q h)
  | inside h hp => exact .inside (List.mem_cons_of_mem q h) hp

theorem groupsFilled_of_mem {ps : List Predicate} (h : GroupsFilledAll ps) :
    ∀ p ∈ ps, p.GroupsFilled := by
  induction ps with
  | nil => simp
  | cons p ps ih =>
      rw [GroupsFilledAll] at h
      rw [List.forall_mem_cons]
      exact ⟨h.1, ih h.2⟩

/-- A group without members is not among groups that all have some. -/
theorem not_within_of_groupsFilledAll {ps : List Predicate} (h : GroupsFilledAll ps) :
    ¬Within (.anyOf []) ps := by
  intro hwithin
  induction hwithin with
  | here hmem =>
      have hempty := groupsFilled_of_mem h _ hmem
      rw [GroupsFilled] at hempty
      exact hempty.1 rfl
  | inside hmem _ ih =>
      have hgroup := groupsFilled_of_mem h _ hmem
      rw [GroupsFilled] at hgroup
      exact ih hgroup.2

mutual

/-- If no group without members is among the members, all groups have members. -/
theorem groupsFilled_of_not_within : (p : Predicate) → ¬Within (.anyOf []) [p] → p.GroupsFilled
  | .anyOf ps, h => by
      rw [GroupsFilled]
      refine ⟨?_, groupsFilledAll_of_not_within ps fun hps => h (.inside List.mem_cons_self hps)⟩
      rintro rfl
      exact h (.here List.mem_cons_self)
  | .comparison .., _ => by simp [GroupsFilled]
  | .columnComparison .., _ => by simp [GroupsFilled]
  | .nullCheck .., _ => by simp [GroupsFilled]
  | .fullText .., _ => by simp [GroupsFilled]
  | .pattern .., _ => by simp [GroupsFilled]
  | .inSet .., _ => by simp [GroupsFilled]

theorem groupsFilledAll_of_not_within :
    (ps : List Predicate) → ¬Within (.anyOf []) ps → GroupsFilledAll ps
  | [], _ => by simp [GroupsFilledAll]
  | p :: ps, h => by
      rw [GroupsFilledAll]
      refine ⟨groupsFilled_of_not_within p fun hp => h ?_,
        groupsFilledAll_of_not_within ps fun hps => h hps.cons⟩
      cases hp with
      | here hmem => exact .here (by simp_all)
      | inside hmem hwithin => exact .inside (by simp_all) hwithin

end

/-- All groups have members exactly if the whole condition is no group without members and no
such group is among its operands. -/
theorem groupsFilledAll_iff (ps : List Predicate) :
    GroupsFilledAll ps ↔ ps ≠ [.anyOf []] ∧ ¬Within (.anyOf []) (outermost ps) := by
  by_cases hlone : ∃ qs, ps = [.anyOf qs]
  · obtain ⟨qs, rfl⟩ := hlone
    rw [outermost]
    constructor
    · intro h
      simp only [GroupsFilledAll, GroupsFilled] at h
      exact ⟨by simpa using h.1.1, not_within_of_groupsFilledAll h.1.2⟩
    · rintro ⟨hne, hwithin⟩
      simp only [GroupsFilledAll, GroupsFilled]
      exact ⟨⟨by simpa using hne, groupsFilledAll_of_not_within qs hwithin⟩, trivial⟩
  · have hne : ∀ qs, ps ≠ [.anyOf qs] := fun qs hps => hlone ⟨qs, hps⟩
    rw [outermost_of_ne hne]
    exact ⟨fun h => ⟨hne [], not_within_of_groupsFilledAll h⟩,
      fun h => groupsFilledAll_of_not_within ps h.2⟩

/-! ## The texts of operands -/

/-- A text with a blank and with something that is not blank. -/
structure Worded (text : String) : Prop where
  blank : ' ' ∈ text.toList
  sign : ∃ c ∈ text.toList, Text.isBlank c = false

theorem exists_mem_symbol (op : Operator) : ∃ c ∈ op.symbol.toList, Text.isBlank c = false := by
  have hany : op.symbol.toList.any (fun c => !Text.isBlank c) = true := by
    cases op <;> decide
  simpa using hany

/-- **The text of an atomic predicate has a word**, whatever its columns are. -/
theorem worded_write {p : Predicate} (h : p.isAnyOf = false) (r : Rendering) (d : Draft) :
    Worded ((p.write r).run d).1 := by
  cases p with
  | comparison column op value negated =>
      obtain ⟨c, hc, hblank⟩ := exists_mem_symbol op
      rw [write, Writing.run_bind, Writing.run_pure]
      exact ⟨by simp, c, by simp [hc], hblank⟩
  | columnComparison column op other negated =>
      obtain ⟨c, hc, hblank⟩ := exists_mem_symbol op
      rw [write, Writing.run_pure]
      exact ⟨by simp, c, by simp [hc], hblank⟩
  | nullCheck column negated =>
      rw [write, Writing.run_pure]
      cases negated <;> exact ⟨by simp, 'L', by simp, by decide⟩
  | fullText column value negated =>
      rw [write, Writing.run_bind, Writing.run_pure]
      exact ⟨by simp, '=', by simp, by decide⟩
  | pattern column value negated options =>
      rw [write, Writing.run_bind, Writing.run_pure, Dialect.like_eq]
      exact ⟨by simp, 'E', by simp, by decide⟩
  | inSet column source negated =>
      by_cases hempty : source = .values []
      · subst hempty
        rw [write, Writing.run_pure]
        cases negated <;> exact ⟨by simp, '1', by simp, by decide⟩
      · rw [write, Writing.run_bind, Writing.run_pure]
        · exact ⟨by simp, '(', by simp, by decide⟩
        · exact hempty
  | anyOf ps => simp [isAnyOf] at h

theorem write_anyOf (r : Rendering) (ps : List Predicate) (d : Draft) :
    (((anyOf ps).write r).run d).1 =
      "(" ++ " OR ".intercalate ((writeAll r ps).run d).1 ++ ")" := by
  rw [write]
  rfl

/-- The text of every predicate has something that is not blank. -/
theorem exists_mem_write (p : Predicate) (r : Rendering) (d : Draft) :
    ∃ c ∈ ((p.write r).run d).1.toList, Text.isBlank c = false := by
  cases p with
  | anyOf ps =>
      rw [write_anyOf]
      exact ⟨'(', by simp, by decide⟩
  | _ => exact (worded_write rfl r d).sign

/-- What stands in the first of some texts stands in what they are put together to. -/
theorem mem_intercalate_cons {c : Char} {s : String} (h : c ∈ s.toList) (separator : String)
    (texts : List String) : c ∈ (separator.intercalate (s :: texts)).toList := by
  rw [String.toList_intercalate, List.map_cons]
  cases texts with
  | nil => simpa using h
  | cons t texts => simp [List.intercalate_cons_cons, h]

theorem exists_mem_writeAll {ps : List Predicate} (h : ps ≠ []) (separator : String)
    (r : Rendering) (d : Draft) :
    ∃ c ∈ (separator.intercalate ((writeAll r ps).run d).1).toList, Text.isBlank c = false := by
  obtain ⟨p, ps, rfl⟩ := List.exists_cons_of_ne_nil h
  obtain ⟨c, hc, hblank⟩ := exists_mem_write p r d
  refine ⟨c, ?_, hblank⟩
  rw [writeAll]
  exact mem_intercalate_cons hc separator _

/-- **Only a group without members leaves nothing but its parentheses.** -/
theorem write_eq_parens_iff (p : Predicate) (r : Rendering) (d : Draft) :
    ((p.write r).run d).1 = "()" ↔ p = .anyOf [] := by
  cases hatomic : p.isAnyOf with
  | false =>
      refine iff_of_false (fun hparens => ?_) (fun hp => by simp [hp, isAnyOf] at hatomic)
      have hblank := (worded_write hatomic r d).blank
      rw [hparens] at hblank
      exact absurd hblank (by decide)
  | true =>
      obtain ⟨ps, rfl⟩ : ∃ ps, p = .anyOf ps := by cases p <;> simp_all [isAnyOf]
      rw [write_anyOf]
      constructor
      · intro hparens
        by_contra hgroup
        have hne : ps ≠ [] := by simpa using hgroup
        obtain ⟨c, hc, -⟩ := exists_mem_writeAll hne " OR " r d
        have hnil : (" OR ".intercalate ((writeAll r ps).run d).1).toList = [] := by
          simpa [← String.toList_inj] using hparens
        rw [hnil] at hc
        exact absurd hc List.not_mem_nil
      · intro hp
        obtain rfl : ps = [] := by simpa using hp
        rw [writeAll]
        rfl

end Predicate

/-! ## The WHERE clause -/

namespace Query

open Predicate (Within outermost GroupsFilledAll)

/-- The statement of a query has a WHERE clause, and nothing is missing in its condition. -/
structure Filtered (r : Rendering) (d : Draft) (q : Query) : Prop where
  /-- There is more to the condition than blanks. -/
  condition : Text.trim ((q.clauses r).run d).1.condition ≠ ""
  /-- The condition stands in the statement behind the clauses in front of it. -/
  clause : ∃ behind, ((q.write r).run d).1 = ((q.clauses r).run d).1.front.text ++ " " ++
    Text.trim ("WHERE " ++ ((q.clauses r).run d).1.condition) ++ behind
  /-- No operand that the condition is written from is left empty, at any depth
  (`Predicate.run_writeConjunction`). -/
  operands : ∀ p, Within p (outermost q.conditions) → ∀ before,
    ((p.write r).run before).1 ≠ "" ∧ ((p.write r).run before).1 ≠ "()"

/-- The condition has a sign if there is an operand. -/
theorem exists_mem_condition (r : Rendering) (d : Draft) {q : Query}
    (h : outermost q.conditions ≠ []) :
    ∃ c ∈ ((q.clauses r).run d).1.condition.toList, Text.isBlank c = false := by
  rw [condition_clauses, Predicate.run_writeConjunction]
  exact Predicate.exists_mem_writeAll h _ r _

theorem outermost_ne_nil {ps : List Predicate} (h : ps ≠ []) (hlone : ps ≠ [.anyOf []]) :
    outermost ps ≠ [] := by
  unfold outermost
  split
  · next qs =>
    rintro rfl
    exact hlone rfl
  · exact h

/-- A single group without alternatives is written as no condition at all. -/
theorem run_write_of_noAlternatives {q : Query} (h : q.conditions = [.anyOf []]) (r : Rendering)
    (d : Draft) : (q.write r).run d = (write r { q with conditions := [] }).run d := by
  have hcondition : Predicate.writeConjunction r [.anyOf []] = Predicate.writeConjunction r [] := by
    rw [Predicate.writeConjunction, Predicate.writeConjunction, Predicate.writeAll]
    rfl
  rw [write_eq, write_eq, clauses, clauses, h, hcondition]

/-- **A query with conditions is filtered by all of them exactly if every group of alternatives
has a member.** The text of the condition is empty only if it is a single group without
alternatives, which nothing satisfies; the statement is then that of the query without
conditions. -/
theorem filtered_iff {q : Query} (h : q.conditions ≠ []) (r : Rendering) (d : Draft) :
    (q.Filtered r d ↔ GroupsFilledAll q.conditions) ∧
      (((q.clauses r).run d).1.condition = "" ↔ q.conditions = [.anyOf []]) ∧
      (q.conditions = [.anyOf []] →
        (q.write r).run d = (write r { q with conditions := [] }).run d) := by
  have hempty (hlone : q.conditions = [.anyOf []]) : ((q.clauses r).run d).1.condition = "" := by
    rw [condition_clauses, hlone, Predicate.writeConjunction, Predicate.writeAll]
    rfl
  refine ⟨⟨fun hfiltered => ?_, fun hfilled => ?_⟩, ⟨fun hcondition => ?_, hempty⟩,
    fun hlone => run_write_of_noAlternatives hlone r d⟩
  · refine (Predicate.groupsFilledAll_iff _).2 ⟨fun hlone => ?_, fun hwithin => ?_⟩
    · exact hfiltered.condition (by rw [hempty hlone]; rfl)
    · exact (hfiltered.operands _ hwithin {}).2 ((Predicate.write_eq_parens_iff _ r {}).2 rfl)
  · obtain ⟨hlone, hwithin⟩ := (Predicate.groupsFilledAll_iff _).1 hfilled
    obtain ⟨c, hc, hblank⟩ := exists_mem_condition r d (outermost_ne_nil h hlone)
    have hcondition : ((q.clauses r).run d).1.condition ≠ "" := by
      intro heq
      simp [heq] at hc
    obtain ⟨behind, -, hbehind⟩ := ((q.clauses r).run d).1.exists_behind hcondition
    refine ⟨Text.trim_ne_empty hblank hc, ⟨behind, ?_⟩,
      fun p hp before => ⟨fun hnil => ?_, fun hparens => ?_⟩⟩
    · simp only [run_write, hbehind]
    · obtain ⟨c, hc, -⟩ := Predicate.exists_mem_write p r before
      simp [hnil] at hc
    · rw [(Predicate.write_eq_parens_iff p r before).1 hparens] at hp
      exact hwithin hp
  · by_contra hlone
    obtain ⟨c, hc, -⟩ := exists_mem_condition r d (outermost_ne_nil h hlone)
    simp [hcondition] at hc

/-- A group in a group, and a group that is not alone. -/
def filteringSample : Query :=
  ⟨.table "t" none, {}, [],
    [.anyOf [.nullCheck "a" false, .anyOf [.comparison "b" .gt (.int 1) false]],
      .inSet "c" (.values []) false], ⟨[], []⟩, []⟩

theorem filtered_iff_filteringSample :
    filteringSample.conditions ≠ [] ∧ filteringSample.Filtered ⟨.postgres, .bound⟩ {} := by
  have hne : filteringSample.conditions ≠ [] := by simp [filteringSample]
  refine ⟨hne, (filtered_iff hne ⟨.postgres, .bound⟩ {}).1.2 ?_⟩
  simp [filteringSample, GroupsFilledAll, Predicate.GroupsFilled]

/-- Of no alternatives none holds, but the statement has all rows. -/
theorem filtered_noAlternatives :
    ¬ ∀ (q : Query) (r : Rendering) (d : Draft), q.conditions ≠ [] → q.Filtered r d := by
  intro h
  have hfiltered := h ⟨.table "t" none, {}, [], [.anyOf []], ⟨[], []⟩, []⟩ ⟨.generic, .bound⟩ {}
    (by simp)
  exact hfiltered.condition rfl

end Query

end SelectSql
