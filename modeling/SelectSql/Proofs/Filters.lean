import SelectSql.Proofs.Definitions

/-!
# SelectSql.Proofs.Filters

What the WHERE entries of a definition mean together. The entries are cut into runs: an entry
whose word is OR continues the run before it, unless it is a set membership test. The
conditions of the query hold exactly if in every run one of the entries is met.

Design points:

* **Truth is given for tests** (`Predicate.decided`). A test is a predicate without its
  negation; a negated predicate is the complement of its test.
* **What an entry means is read off its fields** (`Filter.isMet`), with no regard to the
  predicate that it becomes. A negated comparison with a pattern operator for negated patterns
  is a plain pattern match (`Predicate.decided_compare`).

Main statement: `Definition.conditions_toQuery`.
-/

namespace SelectSql

/-! ## Tests -/

namespace Predicate

/-- The test that a predicate makes, without its negation. -/
def test : Predicate → Predicate
  | .comparison column op value _ => .comparison column op value false
  | .columnComparison column op other _ => .columnComparison column op other false
  | .nullCheck column _ => .nullCheck column false
  | .fullText column value _ => .fullText column value false
  | .pattern column value _ options => .pattern column value false options
  | .inSet column source _ => .inSet column source false
  | .anyOf alternatives => .anyOf alternatives

/-- Whether a predicate is the complement of its test. -/
def isNegated : Predicate → Bool
  | .comparison _ _ _ negated | .columnComparison _ _ _ negated | .nullCheck _ negated
  | .fullText _ _ negated | .pattern _ _ negated _ | .inSet _ _ negated => negated
  | .anyOf _ => false

/-- Whether an atomic predicate holds, given which tests do. -/
def decided (truth : Predicate → Bool) (p : Predicate) : Bool :=
  truth p.test ^^ p.isNegated

end Predicate

/-- Whether a column compares with a value, given which tests hold. Pattern operators match
with the text of the value. -/
def Operator.compares (truth : Predicate → Bool) (column : String) (value : Value) :
    Operator → Bool
  | .like => truth (.pattern column value.plainText false {})
  | .notLike => !truth (.pattern column value.plainText false {})
  | .ilike => truth (.pattern column value.plainText false { caseSensitive := false })
  | .notIlike => !truth (.pattern column value.plainText false { caseSensitive := false })
  | op => truth (.comparison column op value false)

/-- A comparison holds if its column compares with its value, or, if it is negated, does not. -/
theorem Predicate.decided_compare (truth : Predicate → Bool) (column : String) (op : Operator)
    (value : Value) (negated : Bool) :
    decided truth (compare column op value negated) =
      (op.compares truth column value ^^ negated) := by
  cases op <;> cases negated <;> simp [decided, compare, test, isNegated, Operator.compares]

namespace Definition

/-! ## Entries -/

namespace Filter

/-- The word by which an entry is added; a set membership test is never an alternative. -/
def word (f : Filter) : Connective :=
  if f.values.isSome then .and else f.connective

/-- Whether an entry is met, given which tests hold. With a list of values it asks for a member
of the list, without a value for NULL, otherwise for a value that compares; it asks for the
complement if it is negated. -/
def isMet (truth : Predicate → Bool) (f : Filter) : Bool :=
  (match f.values, f.value with
    | some vs, _ => truth (.inSet f.column (.values vs) false)
    | none, none => truth (.nullCheck f.column false)
    | none, some v =>
      (Operator.ofToken f.op).toOption.any fun op => op.compares truth f.column v) ^^ f.negated

/-- The predicate that an entry describes holds if the entry is met. -/
theorem holds_predicate {f : Filter} {p : Predicate} (h : f.predicate = .ok p)
    (truth : Predicate → Bool) :
    p.holds (Predicate.decided truth) = f.isMet truth := by
  rcases f with ⟨column, op, value, values, connective, negated⟩
  cases values with
  | some vs =>
      obtain rfl := Except.ok.inj h
      rfl
  | none =>
      cases value with
      | none =>
          obtain rfl := Except.ok.inj h
          rfl
      | some v =>
          obtain ⟨o, ho, rfl⟩ := exists_of_map_eq_ok h
          have hatomic : (Predicate.compare column o v negated).holds
              (Predicate.decided truth) =
                Predicate.decided truth (.compare column o v negated) := by
            cases o <;> rfl
          rw [hatomic, Predicate.decided_compare, isMet, ho]
          rfl

end Filter

/-- The runs of WHERE entries: an entry continues the one before if its word is OR and it has
no list of values. -/
def filterRuns (fs : List Filter) : List (List Filter) :=
  fs.splitBy fun _ f => f.connective = .or ∧ f.values = none

/-! ## Runs -/

/-- Cutting a list and changing its elements commute. -/
theorem splitBy_map {α β : Type} (f : α → β) (r : β → β → Bool) (l : List α) :
    (l.map f).splitBy r = (l.splitBy fun a b => r (f a) (f b)).map (List.map f) := by
  rw [List.splitBy_eq_iff]
  refine ⟨?_, ?_, ?_, ?_⟩
  · rw [← List.map_flatten, List.flatten_splitBy]
  · simp
  · intro m hm
    obtain ⟨run, hrun, rfl⟩ := List.mem_map.1 hm
    exact (List.isChain_map f).2 (List.isChain_of_mem_splitBy hrun)
  · refine (List.isChain_map _).2 ((List.isChain_getLast_head_splitBy _ l).imp ?_)
    rintro run next ⟨hrun, hnext, hcut⟩
    refine ⟨by simpa using hrun, by simpa using hnext, ?_⟩
    rwa [List.getLast_map, List.head_map]

/-- The runs hold the entries. -/
theorem mem_of_mem_filterRuns {fs run : List Filter} {f : Filter} (hrun : run ∈ filterRuns fs)
    (hf : f ∈ run) : f ∈ fs := by
  have hflatten : f ∈ (filterRuns fs).flatten := List.mem_flatten_of_mem hrun hf
  rwa [filterRuns, List.flatten_splitBy] at hflatten

/-- An entry continues a run exactly if it is added by OR. -/
theorem Filter.word_eq_or_iff (f : Filter) :
    f.word = .or ↔ f.connective = .or ∧ f.values = none := by
  rw [word]
  cases f.values <;> simp

/-- The conditions that entries become, one for each run, hold if in every run an entry is
met. -/
theorem all_holds_pushed {fs : List Filter} {g : Filter → Predicate}
    (h : ∀ f ∈ fs, f.predicate = .ok (g f)) (truth : Predicate → Bool) :
    (((Predicate.pieces (fs.map fun f => (f.word, g f))).map Predicate.joined).all
        (Predicate.holds (Predicate.decided truth))) =
      (filterRuns fs).all fun run => run.any (Filter.isMet truth) := by
  have hpieces : Predicate.pieces (fs.map fun f => (f.word, g f)) =
      (filterRuns fs).map (List.map g) := by
    rw [Predicate.pieces, splitBy_map, List.map_map, filterRuns]
    simp only [Filter.word_eq_or_iff]
    exact List.map_congr_left fun run _ => by rw [Function.comp_apply, List.map_map]; rfl
  rw [hpieces, List.map_map, List.all_map, Bool.eq_iff_iff, List.all_eq_true, List.all_eq_true]
  refine forall₂_congr fun run hrun => ?_
  rw [Function.comp_apply, Function.comp_apply, Predicate.holds_joined, List.any_map,
    List.any_eq_true, List.any_eq_true]
  refine exists_congr fun f => and_congr_right fun hf => ?_
  rw [Function.comp_apply, Filter.holds_predicate (h f (mem_of_mem_filterRuns hrun hf))]

/-! ## Conditions -/

/-- Calls about other clauses add no predicates. -/
theorem flatMap_pushes_edits_eq_nil {calls : List Call}
    (h : ∀ c ∈ calls, c.clause ≠ .conditions) : (Call.edits calls).flatMap Edit.pushes = [] := by
  refine List.flatMap_eq_nil_iff.2 fun e he => ?_
  obtain ⟨c, hc, hclause⟩ := Call.exists_of_mem_edits he
  have hother : e.clause ≠ .conditions := hclause ▸ h c hc
  cases e <;> first | rfl | exact absurd rfl hother

/-- The calls for WHERE entries add their predicates, each by its word. -/
theorem flatMap_pushes_edits_call {fs : List Filter} {g : Filter → Predicate}
    (h : ∀ f ∈ fs, f.predicate = .ok (g f)) :
    (Call.edits (fs.map Filter.call)).flatMap Edit.pushes = fs.map fun f => (f.word, g f) := by
  induction fs with
  | nil => rfl
  | cons f fs ih =>
      obtain ⟨hf, hfs⟩ := List.forall_mem_cons.1 h
      have hresolve : f.call.resolve = .ok (.push [(f.word, g f)]) := by
        rw [Filter.resolve_call, hf]
        rfl
      rw [List.map_cons, Call.edits_cons_ok hresolve, List.flatMap_cons, ih hfs]
      rfl

/-- All that a definition says about conditions are its WHERE entries. -/
theorem flatMap_pushes_edits_steps (d : Definition) :
    (Call.edits (d.steps.map Prod.snd)).flatMap Edit.pushes =
      (Call.edits (d.filters.map Filter.call)).flatMap Edit.pushes := by
  have hbefore : ∀ c ∈ (if d.distinct then [Call.distinct] else []) ++ d.select.map .select ++
      d.joins.map JoinEntry.call, c.clause ≠ .conditions := by
    simp only [List.forall_mem_append, List.forall_mem_map, JoinEntry.clause_call]
    simp [Call.clause]
  have hgroups : ∀ c ∈ d.groupingCalls, c.clause ≠ .conditions := by
    simp only [groupingCalls, List.forall_mem_append, List.forall_mem_map]
    simp [Call.clause, Filter.havingCall]
  have horder : ∀ c ∈ d.order.map fun o => Call.order (!o.descending) [o.column],
      c.clause ≠ .conditions := by
    simp [Call.clause]
  rw [calls_eq, Call.edits_append, List.flatMap_append, flatMap_pushes_edits_eq_nil horder,
    Call.edits_append, List.flatMap_append, flatMap_pushes_edits_eq_nil hgroups,
    Call.edits_append, List.flatMap_append, flatMap_pushes_edits_eq_nil hbefore, List.nil_append,
    List.append_nil, List.append_nil]

/-- **WHERE entries fold like calls written by hand.** The query of a definition holds exactly
if in every run of its WHERE entries one of the entries is met, whichever tests hold. A run is
an entry with those behind it that are added by OR and have no list of values. All operators
that entries compare with are known. -/
theorem conditions_toQuery {d : Definition} {q : Query} (h : d.toQuery = .ok q) :
    (∀ f ∈ d.filters, f.Compares → f.HasOperator) ∧
    ∀ truth : Predicate → Bool,
      q.conditions.all (Predicate.holds (Predicate.decided truth)) =
        (filterRuns d.filters).all fun run => run.any (Filter.isMet truth) := by
  obtain ⟨haccepted, hrun⟩ := Query.runAll_eq_ok_iff.1 h
  obtain ⟨-, hoperators, -⟩ := d.forall_steps_iff.1 haccepted
  refine ⟨hoperators, fun truth => ?_⟩
  have hdescribed : ∀ f ∈ d.filters, ∃ p, f.predicate = .ok p := fun f hf =>
    isOk_eq_true_iff.1 (f.isOk_predicate.2 (hoperators f hf))
  have : Nonempty Predicate := ⟨.anyOf []⟩
  choose! g hg using hdescribed
  have hconditions : q.conditions =
      (Predicate.pieces (d.filters.map fun f => (f.word, g f))).map Predicate.joined := by
    rw [← hrun, Query.run_eq, Query.table, Query.editAll_ofSource, Query.ofEdits,
      flatMap_pushes_edits_steps, flatMap_pushes_edits_call hg]
  rw [hconditions, all_holds_pushed hg]

/-- A definition whose WHERE entries make three runs: an alternative between two patterns, one
of them negated twice, a set membership test that asks for OR in vain, and an alternative
between a comparison and a NULL check. -/
def filteredSample : Definition where
  table := "t"
  filters := [
    { column := "a", op := "NOT LIKE", value := some (.text "x%"), negated := true },
    { column := "a", op := "ilike", value := some (.int 5), connective := .or },
    { column := "b", values := some [.int 1, .null], connective := .or, negated := true },
    { column := "c", op := "<>", value := some (.bool true), negated := true },
    { column := "d", connective := .or, negated := true }]

/-- The query that it becomes. -/
def filteredQuery : Query :=
  { Query.table "t" none with
    conditions := [
      .anyOf [.pattern "a" "x%" false {}, .pattern "a" "5" false { caseSensitive := false }],
      .inSet "b" (.values [.int 1, .null]) true,
      .anyOf [.comparison "c" .ne (.bool true) true, .nullCheck "d" true]] }

theorem conditions_toQuery_filteredSample :
    filteredSample.toQuery = .ok filteredQuery ∧
      (∀ f ∈ filteredSample.filters, f.Compares → f.HasOperator) ∧
      ∀ truth : Predicate → Bool,
        filteredQuery.conditions.all (Predicate.holds (Predicate.decided truth)) =
          (filterRuns filteredSample.filters).all fun run => run.any (Filter.isMet truth) :=
  ⟨rfl, conditions_toQuery (d := filteredSample) rfl⟩

end Definition

end SelectSql
