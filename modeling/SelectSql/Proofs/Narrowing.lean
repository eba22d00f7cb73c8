import SelectSql.Proofs.Alternatives
import SelectSql.Proofs.Clauses
import SelectSql.Proofs.Conditions
import SelectSql.Proofs.Numbering
import SelectSql.Query.Fetch

/-!
# SelectSql.Proofs.Narrowing

Looking up an identifier: the statement of the query with one more test in its condition.

Design points:

* **A test joins a condition as one more operand** (`Predicate.run_writeConjunction_concat`). A
  single group of alternatives gets its parentheses then.
* **Everything in front of the test stands as it stands without it**, since it is written into the
  same draft. Behind the test there are only the groups with values of their own, and their
  placeholders are numbered one higher.

Main statement: `Query.find_narrows`.
-/

namespace SelectSql

/-! ## One more operand -/

namespace Predicate

/-- The text of a condition with one more test. -/
def narrowed (ps : List Predicate) (condition test : String) : String :=
  match ps with
  | [] => test
  | [.anyOf _] => "(" ++ condition ++ ") AND " ++ test
  | _ => condition ++ " AND " ++ test

theorem run_writeAll_anyOf (r : Rendering) (qs : List Predicate) (d : Draft) :
    (writeAll r [.anyOf qs]).run d =
      (["(" ++ " OR ".intercalate ((writeAll r qs).run d).1 ++ ")"],
        ((writeAll r qs).run d).2) := by
  rw [writeAll, write, writeAll]
  rfl

theorem run_writeAll_ne_nil (r : Rendering) {ps : List Predicate} (h : ps ≠ []) (d : Draft) :
    ((writeAll r ps).run d).1 ≠ [] := by
  obtain ⟨p, ps, rfl⟩ := List.exists_cons_of_ne_nil h
  rw [writeAll]
  exact List.cons_ne_nil _ _

/-- The members of a group are written alike with parentheses and without. -/
theorem run_writeAll_outermost (r : Rendering) (ps : List Predicate) (d : Draft) :
    ((writeAll r (outermost ps)).run d).2 = ((writeAll r ps).run d).2 := by
  unfold outermost
  split
  · rw [run_writeAll_anyOf]
  · rfl

theorem draft_writeConjunction (r : Rendering) (ps : List Predicate) (d : Draft) :
    ((writeConjunction r ps).run d).2 = ((writeAll r ps).run d).2 := by
  rw [run_writeConjunction, run_writeAll_outermost]

/-- **One more test is written behind the condition**, which gets parentheses if it is a single
group. -/
theorem run_writeConjunction_concat (r : Rendering) (ps : List Predicate) {p : Predicate}
    (hp : p.isAnyOf = false) (d : Draft) :
    (writeConjunction r (ps ++ [p])).run d =
      (narrowed ps ((writeConjunction r ps).run d).1
          ((p.write r).run ((writeConjunction r ps).run d).2).1,
        ((p.write r).run ((writeConjunction r ps).run d).2).2) := by
  have hne := concat_ne_anyOf hp ps
  have hall : (writeConjunction r (ps ++ [p])).run d =
      (" AND ".intercalate (((writeAll r ps).run d).1 ++
          [((p.write r).run ((writeAll r ps).run d).2).1]),
        ((p.write r).run ((writeAll r ps).run d).2).2) := by
    rw [run_writeConjunction, outermost_of_ne hne, separator_of_ne hne, run_writeAll_append,
      writeAll]
    rfl
  rw [hall, draft_writeConjunction, run_writeConjunction]
  refine Prod.ext ?_ rfl
  unfold narrowed
  split
  · rw [writeAll]
    exact String.intercalate_singleton (s := " AND ")
  · rw [run_writeAll_anyOf, outermost, separator, List.singleton_append,
      String.intercalate_cons_cons, String.intercalate_singleton]
    simp only [String.append_assoc]
    rfl
  · next hnil hlone =>
    have hlone' : ∀ qs, ps ≠ [.anyOf qs] := fun qs hps => hlone qs hps
    rw [outermost_of_ne hlone', separator_of_ne hlone']
    exact String.intercalate_append_of_ne_nil (run_writeAll_ne_nil r hnil d) (List.cons_ne_nil _ _)

/-! ## The meaning of one more operand -/

theorem formulas_append (r : Rendering) (ps qs : List Predicate) (d : Draft) :
    ((formulas r (ps ++ qs)).run d).1 =
      ((formulas r ps).run d).1 ++ ((formulas r qs).run ((writeAll r ps).run d).2).1 := by
  induction ps generalizing d with
  | nil => rw [List.nil_append, formulas, writeAll]; rfl
  | cons p ps ih =>
      rw [List.cons_append, formulas, formulas, writeAll]
      simp only [Writing.run_bind, Writing.run_pure, ih, List.cons_append, run_formula]

theorem groupsFilledAll_concat {ps : List Predicate} (h : GroupsFilledAll ps) {p : Predicate}
    (hp : p.isAnyOf = false) : GroupsFilledAll (ps ++ [p]) := by
  induction ps with
  | nil => cases p <;> simp_all [GroupsFilledAll, GroupsFilled, isAnyOf]
  | cons q ps ih =>
      rw [GroupsFilledAll] at h
      rw [List.cons_append, GroupsFilledAll]
      exact ⟨h.1, ih h.2⟩

theorem leavesAll_append (ps qs : List Predicate) :
    leavesAll (ps ++ qs) = leavesAll ps ++ leavesAll qs := by
  induction ps with
  | nil => rw [List.nil_append, leavesAll, List.nil_append]
  | cons p ps ih => rw [List.cons_append, leavesAll, leavesAll, ih, List.append_assoc]

/-- **A condition with one more test is read as the condition and the test.** -/
theorem read_narrowed (r : Rendering) {ps : List Predicate} (hne : ps ≠ [])
    (hfilled : GroupsFilledAll ps) (hplain : ∀ l ∈ leavesAll ps, l.Plain) {p : Predicate}
    (hp : p.isAnyOf = false) (hleaves : ∀ l ∈ p.leaves, l.Plain) (d : Draft) :
    ∃ f g, Formula.read ((writeConjunction r ps).run d).1 = some f ∧
      Formula.read ((writeConjunction r (ps ++ [p])).run d).1 = some g ∧
      ∀ truth, g.eval truth = (f.eval truth && (Formula.literal
        ((p.write r).run ((writeConjunction r ps).run d).2).1).eval truth) := by
  have hall : ∀ l ∈ leavesAll (ps ++ [p]), l.Plain := by
    intro l hl
    rw [leavesAll_append, leavesAll, leavesAll, List.append_nil] at hl
    exact (List.mem_append.1 hl).elim (hplain l) (hleaves l)
  refine ⟨_, _, read_formulas r ps d hne hfilled hplain,
    read_formulas r (ps ++ [p]) d (by simp) (groupsFilledAll_concat hfilled hp) hall,
    fun truth => ?_⟩
  have htest : ((formulas r [p]).run ((writeAll r ps).run d).2).1 =
      [Formula.literal ((p.write r).run ((writeConjunction r ps).run d).2).1] := by
    rw [draft_writeConjunction, formulas, formulas]
    simp only [Writing.run_bind, Writing.run_pure, run_formula_of_atomic hp]
  rw [Formula.eval_all truth (formulas_ne_nil hne), Formula.eval_all truth
    (formulas_ne_nil (by simp)), formulas_append, htest, List.all_append]
  simp

end Predicate

/-! ## Looking up an identifier -/

theorem Writing.compile_eq (w : Writing String) :
    w.compile = ⟨(w.run {}).1, (w.run {}).2.bound⟩ := rfl

namespace Query

open Predicate (narrowed GroupsFilledAll)

/-- The test for an identifier. -/
def idTest (id : Value) : Predicate :=
  .comparison "id" .eq id false

theorem withId_eq (q : Query) (id : Value) :
    q.withId id = { q with conditions := q.conditions ++ [idTest id] } := by
  rw [withId, Predicate.push_begin (.inr rfl)]
  rfl

theorem run_idTest (d : Dialect) (id : Value) (draft : Draft) :
    ((idTest id).write ⟨d, .bound⟩).run draft =
      ("id = " ++ d.placeholder (draft.bound.length + 1), draft.push id) := by
  have htext (v : String) : Predicate.not false ++ "id" ++ " " ++ Operator.eq.symbol ++ " " ++ v =
      "id = " ++ v := by
    simp [Predicate.not, Operator.symbol]
  rw [idTest, Predicate.write, Writing.run_bind, Writing.run_pure, htext]
  rfl

/-- A test for an identifier is an atom, known by its text. -/
theorem literal_idTest (d : Dialect) (index : Nat) :
    Formula.literal ("id = " ++ d.placeholder index) =
      .atom ("id = " ++ d.placeholder index) := by
  have hword := SlotWord.placeholder d index
  have hquote : '\'' ∉ ("id = " ++ d.placeholder index).toList := by
    simp [hword.not_mem_quote]
  have htrimmed : Text.Trimmed Text.isBlank ("id = " ++ d.placeholder index).toList := by
    rw [String.toList_append]
    refine ⟨fun c hc => ?_, fun c hc => ?_⟩
    · obtain rfl : 'i' = c := by simpa using hc
      decide
    · rw [List.getLast?_append_of_ne_nil _ hword.ne_nil] at hc
      exact (ne_of_mem_slotChars _ (hword.chars _ (List.mem_of_getLast? hc))).2
  have htrim : Text.trimChars ("id = " ++ d.placeholder index).toList =
      ("id = " ++ d.placeholder index).toList := Text.trimBy_eq_self htrimmed
  have hlex : lex false ("id = " ++ d.placeholder index).toList =
      .word "id".toList :: lex false (" = ".toList ++ (d.placeholder index).toList) := by
    rw [String.toList_append]
    rfl
  rw [Formula.literal_eq_atom (Text.insideAfter_of_not_mem hquote false), Text.trim, htrim,
    String.ofList_toList]
  intro t ht
  rw [htrim, hlex, List.head?_cons] at ht
  obtain rfl := Option.some.inj ht
  decide

/-- **The clauses with a test for an identifier** are those of the query, but for the condition
and the placeholders behind it. -/
theorem run_clauses_withId (q : Query) (d : Dialect) (id : Value) (draft : Draft) :
    ((q.withId id).clauses ⟨d, .bound⟩).run draft =
      ({ ((q.clauses ⟨d, .bound⟩).run draft).1 with
          condition := narrowed q.conditions ((q.clauses ⟨d, .bound⟩).run draft).1.condition
            ("id = " ++ d.placeholder ((q.groupingDraft ⟨d, .bound⟩ draft).bound.length + 1))
          grouping := ((q.grouping.write ⟨d, .bound⟩).run
            ((q.groupingDraft ⟨d, .bound⟩ draft).push id)).1 },
        ((q.grouping.write ⟨d, .bound⟩).run
          ((q.groupingDraft ⟨d, .bound⟩ draft).push id)).2) := by
  have hcondition := Predicate.run_writeConjunction_concat ⟨d, .bound⟩ q.conditions
    (p := idTest id) rfl (q.conditionDraft ⟨d, .bound⟩ draft)
  rw [run_idTest] at hcondition
  rw [withId_eq, run_clauses_conditions, hcondition, condition_clauses]
  rfl

/-- The groups of a query are written with pieces of their own, wherever they stand. -/
theorem exists_number_grouping (g : Grouping) (d : Dialect) :
    ∃ pieces : List String, pieces.length = (g.doc d).values.length + 1 ∧
      (g.write ⟨d, .bound⟩).compile = ⟨d.number pieces 0, (g.doc d).values⟩ ∧
      ∀ draft, ((g.write ⟨d, .bound⟩).run draft).1 = d.number pieces draft.bound.length ∧
        ((g.write ⟨d, .bound⟩).run draft).2.bound = draft.bound ++ (g.doc d).values := by
  obtain ⟨pieces, hlength, htext⟩ := (g.doc d).exists_number d
  have hwrites (draft : Draft) := Grouping.writes ⟨d, .bound⟩ g draft draft.bound.length fun _ => rfl
  have hrun (draft : Draft) :
      ((g.write ⟨d, .bound⟩).run draft).1 = d.number pieces draft.bound.length ∧
        ((g.write ⟨d, .bound⟩).run draft).2.bound = draft.bound ++ (g.doc d).values :=
    ⟨by rw [(hwrites draft).value, htext], (hwrites draft).bound⟩
  refine ⟨pieces, hlength, ?_, hrun⟩
  rw [Writing.compile_eq, (hrun {}).1, (hrun {}).2]
  rfl

/-- **Looking up an identifier narrows the statement of a query and changes nothing else.** Its
condition gets a test for the identifier as one more operand, which is read as the condition and
the test. The values stand as before, with the identifier between those in front of the groups and
those of the groups, whose placeholders are numbered one higher. -/
theorem find_narrows (q : Query) (d : Dialect) (id : Value) :
    ∃ (own : Clauses) (pieces : List String) (before after : List Value),
      ((q.clauses ⟨d, .bound⟩).run {}).1 = own ∧
      pieces.length = after.length + 1 ∧
      own.grouping = d.number pieces before.length ∧
      (q.grouping.write ⟨d, .bound⟩).compile = ⟨d.number pieces 0, after⟩ ∧
      q.compile d = ⟨own.text, before ++ after⟩ ∧
      q.find d id = ⟨.first, ⟨Clauses.text { own with
          condition := narrowed q.conditions own.condition
            ("id = " ++ d.placeholder (before.length + 1))
          grouping := d.number pieces (before.length + 1) }, before ++ id :: after⟩⟩ ∧
      (q.conditions ≠ [] → GroupsFilledAll q.conditions →
        (∀ l ∈ Predicate.leavesAll q.conditions, l.Plain) →
        ∃ f g, Formula.read own.condition = some f ∧
          Formula.read (narrowed q.conditions own.condition
            ("id = " ++ d.placeholder (before.length + 1))) = some g ∧
          ∀ truth, g.eval truth =
            (f.eval truth && truth ("id = " ++ d.placeholder (before.length + 1)))) := by
  obtain ⟨pieces, hlength, hcompile, hgrouping⟩ := exists_number_grouping q.grouping d
  obtain ⟨hown, hownBound⟩ := hgrouping (q.groupingDraft ⟨d, .bound⟩ {})
  obtain ⟨hfound, hfoundBound⟩ := hgrouping ((q.groupingDraft ⟨d, .bound⟩ {}).push id)
  refine ⟨_, pieces, (q.groupingDraft ⟨d, .bound⟩ {}).bound, (q.grouping.doc d).values, rfl,
    hlength, by rw [grouping_clauses, hown], hcompile, ?_, ?_, fun hne hfilled hplain => ?_⟩
  · rw [compile, Writing.compile_eq, run_write, draft_clauses, hownBound]
  · rw [find, first, compile, Writing.compile_eq, run_write, run_clauses_withId, hfound,
      hfoundBound]
    simp only [Draft.push, List.length_append, List.length_singleton, List.append_assoc,
      List.singleton_append]
  · have hleaves : ∀ l ∈ (idTest id).leaves, l.Plain := by
      have hid : PlainText "id" := by decide
      simp [idTest, Predicate.leaves, Leaf.Plain, hid]
    have hread := Predicate.read_narrowed ⟨d, .bound⟩ hne hfilled hplain (p := idTest id) rfl
      hleaves (q.conditionDraft ⟨d, .bound⟩ {})
    rw [Predicate.run_writeConjunction_concat ⟨d, .bound⟩ q.conditions (p := idTest id) rfl,
      run_idTest, literal_idTest] at hread
    exact hread

/-- A query whose condition is a single group, with a value in front of the identifier and one
behind it. -/
def narrowingSample : Query :=
  ⟨.table "t" none, {}, [],
    [.anyOf [.nullCheck "a" false, .comparison "b" .gt (.int 1) false]],
    ⟨["c"], [⟨.and, .comparison "d" .lt (.int 2) false⟩]⟩, []⟩

theorem find_narrows_narrowingSample :
    (narrowingSample.conditions ≠ [] ∧ GroupsFilledAll narrowingSample.conditions ∧
      ∀ l ∈ Predicate.leavesAll narrowingSample.conditions, l.Plain) ∧
    ∃ (own : Clauses) (before after : List Value),
      narrowingSample.compile .postgres = ⟨own.text, before ++ after⟩ ∧
      (narrowingSample.find .postgres (.int 7)).statement.params = before ++ .int 7 :: after ∧
      ∃ f g, Formula.read own.condition = some f ∧
        Formula.read ("(" ++ own.condition ++ ") AND " ++
          ("id = " ++ Dialect.postgres.placeholder (before.length + 1))) = some g ∧
        ∀ truth, g.eval truth = (f.eval truth &&
          truth ("id = " ++ Dialect.postgres.placeholder (before.length + 1))) := by
  have hne : narrowingSample.conditions ≠ [] := by simp [narrowingSample]
  have hfilled : GroupsFilledAll narrowingSample.conditions := by
    simp [narrowingSample, GroupsFilledAll, Predicate.GroupsFilled]
  have hplain : ∀ l ∈ Predicate.leavesAll narrowingSample.conditions, l.Plain := by decide
  obtain ⟨own, pieces, before, after, -, -, -, -, hcompile, hfind, hread⟩ :=
    find_narrows narrowingSample .postgres (.int 7)
  exact ⟨⟨hne, hfilled, hplain⟩, own, before, after, hcompile, by rw [hfind],
    hread hne hfilled hplain⟩

example : (narrowingSample.find .postgres (.int 7)).statement =
    ⟨"SELECT * FROM \x7bt\x7d WHERE (a IS NULL OR b > $1) AND id = $2 GROUP BY c HAVING d < $3",
      [.int 1, .int 7, .int 2]⟩ :=
  rfl

end Query

end SelectSql
