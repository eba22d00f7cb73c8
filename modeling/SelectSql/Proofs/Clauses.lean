import SelectSql.Proofs.Doc.Statement

/-!
# SelectSql.Proofs.Clauses

A statement taken apart into the texts of its clauses, so that a change of one clause can be
followed into the statement.

Design points:

* **The clauses are written one behind the other** (`Query.clauses`), and the statement is put
  together from their texts at the end (`Query.write_eq`).
* **A condition that is not empty is put in** between the clauses in front of it and those behind
  it, which are the same without it (`Clauses.exists_behind`).
* **A condition is its operands with a word between them** (`Predicate.run_writeConjunction`). A
  single group of alternatives is the whole condition, so its members are the operands.

Main statements: `Query.write_eq` and `Clauses.exists_behind`.
-/

namespace SelectSql

/-! ## Clauses -/

/-- The texts of the clauses of a statement. -/
structure Clauses where
  projection : String
  source : String
  joins : String
  condition : String
  grouping : String
  ordering : String

namespace Clauses

/-- The statement with the clauses. -/
def text (c : Clauses) : String :=
  Query.assemble c.projection c.source c.joins c.condition c.grouping c.ordering

/-- The clauses in front of the condition. -/
def front (c : Clauses) : Clauses :=
  { c with condition := "", grouping := "", ordering := "" }

end Clauses

/-- Writes the clauses of a query. -/
def Query.clauses (r : Rendering) (q : Query) : Writing Clauses := do
  let projection ← q.projection.write r
  let source ← q.source.write r
  let joins ← Join.writeClause r q.joins
  let condition ← Predicate.writeConjunction r q.conditions
  let grouping ← q.grouping.write r
  return ⟨projection, source, joins, condition, grouping, OrderTerm.clause q.ordering⟩

/-- **A statement is written clause by clause.** -/
theorem Query.write_eq (r : Rendering) (q : Query) :
    q.write r = do return (← q.clauses r).text := by
  obtain ⟨source, projection, joins, conditions, grouping, ordering⟩ := q
  rw [Query.write]
  rfl

theorem Query.run_write (r : Rendering) (q : Query) (d : Draft) :
    (q.write r).run d = (((q.clauses r).run d).1.text, ((q.clauses r).run d).2) := by
  rw [Query.write_eq]
  rfl

/-- The draft that the condition of a query is written into, behind the clauses in front. -/
def Query.conditionDraft (r : Rendering) (q : Query) (d : Draft) : Draft :=
  ((do
    let _ ← q.projection.write r
    let _ ← q.source.write r
    Join.writeClause r q.joins).run d).2

theorem Query.condition_clauses (r : Rendering) (q : Query) (d : Draft) :
    ((q.clauses r).run d).1.condition =
      ((Predicate.writeConjunction r q.conditions).run (q.conditionDraft r d)).1 := rfl

/-- The draft that the groups of a query are written into, behind its condition. -/
def Query.groupingDraft (r : Rendering) (q : Query) (d : Draft) : Draft :=
  ((Predicate.writeConjunction r q.conditions).run (q.conditionDraft r d)).2

theorem Query.grouping_clauses (r : Rendering) (q : Query) (d : Draft) :
    ((q.clauses r).run d).1.grouping = ((q.grouping.write r).run (q.groupingDraft r d)).1 := rfl

theorem Query.draft_clauses (r : Rendering) (q : Query) (d : Draft) :
    ((q.clauses r).run d).2 = ((q.grouping.write r).run (q.groupingDraft r d)).2 := rfl

/-- With other conditions only the condition is another one, and what is written behind it. -/
theorem Query.run_clauses_conditions (r : Rendering) (q : Query) (ps : List Predicate)
    (d : Draft) :
    (clauses r { q with conditions := ps }).run d =
      let condition := (Predicate.writeConjunction r ps).run (q.conditionDraft r d)
      let grouping := (q.grouping.write r).run condition.2
      ({ ((q.clauses r).run d).1 with condition := condition.1, grouping := grouping.1 },
        grouping.2) := rfl

/-! ## The condition among the clauses -/

/-- What holds something that is not blank is not empty when it is trimmed. -/
theorem Text.trimChars_ne_nil {cs : List Char} {c : Char} (hc : Text.isBlank c = false)
    (hmem : c ∈ cs) : Text.trimChars cs ≠ [] := by
  obtain ⟨front, back, rfl⟩ := List.append_of_mem hmem
  have htrimmed : Text.Trimmed Text.isBlank [c] := ⟨by simpa using hc, by simpa using hc⟩
  have hinfix : [c] <:+: Text.trimChars (front ++ c :: back) :=
    htrimmed.infix_trimBy ⟨front, back, by simp⟩
  intro hnil
  rw [hnil] at hinfix
  simpa using hinfix.length_le

theorem Text.trim_ne_empty {s : String} {c : Char} (hc : Text.isBlank c = false)
    (hmem : c ∈ s.toList) : Text.trim s ≠ "" := by
  intro hempty
  refine Text.trimChars_ne_nil hc hmem ?_
  rw [← Text.toList_trim, hempty, String.toList_empty]

theorem spaced_assoc {α : Type} (sep : α) (xs ys zs : List α) :
    spaced sep (spaced sep xs ys) zs = spaced sep xs (spaced sep ys zs) := by
  cases xs <;> cases ys <;> cases zs <;> simp [spaced]

@[simp] theorem nil_spaced {α : Type} (sep : α) (ys : List α) : spaced sep [] ys = ys := rfl

@[simp] theorem spaced_nil {α : Type} (sep : α) (xs : List α) : spaced sep xs [] = xs := by
  cases xs <;> simp [spaced]

theorem spaced_of_ne_nil {α : Type} (sep : α) {xs ys : List α} (hx : xs ≠ []) (hy : ys ≠ []) :
    spaced sep xs ys = xs ++ sep :: ys := by
  simp [spaced, hx, hy]

/-- What a separator adds in front of a list is the same behind everything. -/
theorem exists_spaced {α : Type} (sep : α) (ys : List α) :
    ∃ behind, ∀ xs, xs ≠ [] → spaced sep xs ys = xs ++ behind := by
  cases ys with
  | nil => exact ⟨[], fun xs _ => by simp⟩
  | cons y ys => exact ⟨sep :: y :: ys, fun xs h => spaced_of_ne_nil sep h (by simp)⟩

theorem spaced_ne_nil {α : Type} (sep : α) {xs : List α} (h : xs ≠ []) (ys : List α) :
    spaced sep xs ys ≠ [] := by
  obtain ⟨behind, hbehind⟩ := exists_spaced sep ys
  simp [hbehind xs h, h]

namespace Clauses

/-- The statement is what stands in front of the condition, the condition and what stands behind
it. -/
theorem toList_text (c : Clauses) (condition : String) :
    { c with condition := condition }.text.toList = spaced ' ' c.front.text.toList
      (spaced ' ' (Text.trimChars (under "WHERE ".toList condition.toList))
        (spaced ' ' (Text.trimChars c.grouping.toList) (Text.trimChars c.ordering.toList))) := by
  have hnone : Text.trimChars (under "WHERE ".toList "".toList) = [] := rfl
  have hempty : Text.trimChars "".toList = [] := rfl
  rw [text, text, front, Query.toList_assemble, Query.toList_assemble, hnone, hempty]
  simp only [spaced_nil, spaced_assoc]

/-- A statement begins with a word. -/
theorem text_ne_nil (c : Clauses) : c.text.toList ≠ [] := by
  rw [text, Query.toList_assemble]
  exact spaced_ne_nil _ (Text.trimChars_ne_nil (c := 'S') (by decide) (by simp)) _

/-- **A condition is put in between the clauses in front of it and what stands behind it.** -/
theorem exists_behind (c : Clauses) (h : c.condition ≠ "") :
    ∃ behind, { c with condition := "" }.text = c.front.text ++ behind ∧
      c.text = c.front.text ++ " " ++ Text.trim ("WHERE " ++ c.condition) ++ behind := by
  obtain ⟨behind, hbehind⟩ := exists_spaced ' '
    (spaced ' ' (Text.trimChars c.grouping.toList) (Text.trimChars c.ordering.toList))
  refine ⟨String.ofList behind, ?_, ?_⟩
  · rw [← String.toList_inj, toList_text]
    simp [under, hbehind _ c.front.text_ne_nil]
  · have hwhere : Text.trimChars ("WHERE ".toList ++ c.condition.toList) ≠ [] :=
      Text.trimChars_ne_nil (c := 'W') (by decide) (by simp)
    have hunder : under "WHERE ".toList c.condition.toList =
        "WHERE ".toList ++ c.condition.toList := by
      simp [under, h]
    have htext := c.toList_text c.condition
    rw [hunder, hbehind _ hwhere,
      spaced_of_ne_nil _ c.front.text_ne_nil (List.append_ne_nil_of_left_ne_nil hwhere _)] at htext
    rw [← String.toList_inj]
    simpa using htext

end Clauses

/-! ## The operands of a condition -/

namespace Predicate

/-- The operands that a condition is written from: a single group of alternatives is the whole
condition, and its members are the operands. -/
def outermost : List Predicate → List Predicate
  | [.anyOf ps] => ps
  | ps => ps

/-- What stands between the operands of a condition. -/
def separator : List Predicate → String
  | [.anyOf _] => " OR "
  | _ => " AND "

theorem outermost_of_ne {ps : List Predicate} (h : ∀ qs, ps ≠ [.anyOf qs]) : outermost ps = ps := by
  unfold outermost
  split
  · next qs => exact absurd rfl (h qs)
  · rfl

theorem separator_of_ne {ps : List Predicate} (h : ∀ qs, ps ≠ [.anyOf qs]) :
    separator ps = " AND " := by
  unfold separator
  split
  · next qs => exact absurd rfl (h qs)
  · rfl

/-- With an atomic predicate at the end a condition is no single group. -/
theorem concat_ne_anyOf {p : Predicate} (hp : p.isAnyOf = false) (ps : List Predicate) :
    ∀ qs, ps ++ [p] ≠ [.anyOf qs] := by
  intro qs hlone
  have hmem : p ∈ [anyOf qs] := hlone ▸ List.mem_append_right _ (List.mem_singleton_self p)
  rw [List.mem_singleton.1 hmem] at hp
  simp [isAnyOf] at hp

/-- **A condition is its operands with a word between them.** -/
theorem run_writeConjunction (r : Rendering) (ps : List Predicate) (d : Draft) :
    (writeConjunction r ps).run d =
      ((separator ps).intercalate ((writeAll r (outermost ps)).run d).1,
        ((writeAll r (outermost ps)).run d).2) := by
  by_cases hlone : ∃ qs, ps = [.anyOf qs]
  · obtain ⟨qs, rfl⟩ := hlone
    rw [writeConjunction, outermost, separator]
    rfl
  · have hne : ∀ qs, ps ≠ [.anyOf qs] := fun qs hps => hlone ⟨qs, hps⟩
    rw [outermost_of_ne hne, separator_of_ne hne]
    cases ps with
    | nil => rw [writeConjunction, writeAll]; rfl
    | cons p ps =>
        rw [writeConjunction, writeAll]
        · rfl
        · rintro qs rfl rfl
          exact hne qs rfl

theorem run_writeAll_append (r : Rendering) (ps qs : List Predicate) (d : Draft) :
    (writeAll r (ps ++ qs)).run d =
      (((writeAll r ps).run d).1 ++ ((writeAll r qs).run ((writeAll r ps).run d).2).1,
        ((writeAll r qs).run ((writeAll r ps).run d).2).2) := by
  induction ps generalizing d with
  | nil => rw [writeAll]; rfl
  | cons p ps ih =>
      rw [List.cons_append, writeAll, writeAll]
      simp only [Writing.run_bind, Writing.run_pure, ih, List.cons_append]

end Predicate

end SelectSql
