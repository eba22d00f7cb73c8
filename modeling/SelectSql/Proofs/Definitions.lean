import SelectSql.Definition
import SelectSql.Proofs.Runs

/-!
# SelectSql.Proofs.Definitions

When a definition becomes a query, and what its HAVING entries become.

Design points:

* **A definition is its calls.** It becomes a query exactly if each of its calls is accepted
  (`Query.runAll_eq_ok_iff`), and whether a call is accepted is read off its entry alone, so
  the place of an entry in its list is of no matter.
* **The fields of an entry describe a predicate** (`Filter.predicate`). The call of a WHERE
  entry adds this predicate, and no operator is read unless the predicate is a comparison
  (`Filter.resolve_call`). The call of a HAVING entry reads the operator whatever the entry
  describes, and compares always (`Filter.resolve_havingCall`).

Main statements: `Definition.isOk_toQuery_iff`, `Definition.having_toQuery`.
-/

namespace SelectSql

/-! ## Join conditions -/

namespace ConditionItem

/-- An item that is a connective or a condition. -/
def Readable (item : ConditionItem) : Prop :=
  item.connective?.isSome = true ∨ item.condition.isOk = true

/-- A sequence is read if each of its items is; what is read is empty if they are all
connectives. -/
theorem resolve_cases (first : Bool) (pending : Connective) (items : List ConditionItem) :
    (∀ i ∈ items, i.Readable) ∧ (∃ terms, resolve first pending items = .ok terms ∧
        (terms = [] ↔ ∀ i ∈ items, i.connective?.isSome = true)) ∨
      (¬ ∀ i ∈ items, i.Readable) ∧ ∃ e, resolve first pending items = .error e := by
  induction items generalizing first pending with
  | nil => exact .inl ⟨by simp, [], rfl, by simp⟩
  | cons item items ih =>
      rw [List.forall_mem_cons, resolve]
      cases hword : item.connective? with
      | some word =>
          have hitem : item.Readable := .inl (by rw [hword]; rfl)
          rcases ih first word with ⟨hall, terms, hterms, hnil⟩ | ⟨hnot, e, he⟩
          · exact .inl ⟨⟨hitem, hall⟩, terms, hterms, by simp [hnil, hword]⟩
          · exact .inr ⟨fun h => hnot h.2, e, he⟩
      | none =>
          cases hcondition : item.condition with
          | error e =>
              refine .inr ⟨fun h => ?_, e, rfl⟩
              have hitem : item.Readable := h.1
              rw [Readable, hword, hcondition] at hitem
              rcases hitem with hitem | hitem <;> exact nomatch hitem
          | ok c =>
              have hitem : item.Readable := .inr (by rw [hcondition]; rfl)
              rcases ih false .and with ⟨hall, terms, hterms, -⟩ | ⟨hnot, e, he⟩
              · exact .inl ⟨⟨hitem, hall⟩, _, by rw [hterms]; rfl, by simp [hword]⟩
              · exact .inr ⟨fun h => hnot h.2, e, by rw [he]; rfl⟩

end ConditionItem

/-- A sequence resolves exactly if all its items are read and one is a condition. -/
theorem ConditionSpec.isOk_resolve_sequence (items : List ConditionItem) :
    (ConditionSpec.sequence items).resolve.isOk = true ↔
      (∀ i ∈ items, i.Readable) ∧ ∃ i ∈ items, i.connective? = none := by
  rw [resolve]
  rcases ConditionItem.resolve_cases true .and items with
    ⟨hall, terms, hterms, hnil⟩ | ⟨hnot, e, he⟩
  · rw [hterms]
    cases terms with
    | nil =>
        refine iff_of_false Bool.false_ne_true fun ⟨_, i, hi, hword⟩ => ?_
        have hsome := hnil.1 rfl i hi
        rw [hword] at hsome
        contradiction
    | cons t ts =>
        refine iff_of_true rfl ⟨hall, ?_⟩
        by_contra hnone
        push Not at hnone
        have hempty := hnil.2 fun i hi => Option.isSome_iff_ne_none.2 (hnone i hi)
        contradiction
  · rw [he]
    exact iff_of_false Bool.false_ne_true fun h => hnot h.1

/-! ## Entries -/

namespace Edit

theorem groups?_of_clause {e : Edit} (h : e.clause ≠ .grouping) : e.groups? = none := by
  cases e <;> first | rfl | exact absurd rfl h

theorem having?_of_clause {e : Edit} (h : e.clause ≠ .grouping) : e.having? = none := by
  cases e <;> first | rfl | exact absurd rfl h

end Edit

/-- Every predicate that compares with a value tells whether it is negated. -/
theorem Predicate.compare_negated_inj {column : String} {op : Operator} {v : Value}
    {negated negated' : Bool} :
    Predicate.compare column op v negated = Predicate.compare column op v negated' ↔
      negated = negated' := by
  cases op <;> simp [Predicate.compare]

namespace Definition

/-- A join that can be made: a cross join has no conditions; those of any other join are
conditions and connectives, and one of them at least is a condition. -/
def JoinEntry.Sound (j : JoinEntry) : Prop :=
  if j.kind = .cross then j.on = []
  else (∀ t ∈ j.on, (ConditionItem.text t).Readable) ∧ ∃ t ∈ j.on, Connective.ofToken? t = none

theorem JoinEntry.isAccepted_call (j : JoinEntry) : j.call.isAccepted = true ↔ j.Sound := by
  rcases j with ⟨kind, table, asName, on⟩
  by_cases hkind : kind = .cross
  · subst hkind
    rw [JoinEntry.Sound, if_pos rfl, JoinEntry.call]
    by_cases hon : on = []
    · rw [if_pos ⟨rfl, hon⟩]
      exact iff_of_true rfl hon
    · rw [if_neg fun h => hon h.2]
      exact iff_of_false Bool.false_ne_true hon
  · rw [JoinEntry.Sound, if_neg hkind, JoinEntry.call, if_neg fun h => hkind h.1, Call.isAccepted,
      Call.resolve, if_neg hkind, isOk_map, ConditionSpec.isOk_resolve_sequence]
    simp [ConditionItem.connective?]

namespace Filter

/-- The operator of a filter is known. -/
def HasOperator (f : Filter) : Prop :=
  (Operator.ofToken f.op).isOk = true

/-- A filter that compares its column with its value. -/
def Compares (f : Filter) : Prop :=
  f.values = none ∧ f.value ≠ none

/-- The predicate that the fields of a filter describe: with a list of values a set membership
test, without a value a NULL check, otherwise a comparison; negated if the filter is. -/
def predicate (f : Filter) : Except QueryError Predicate :=
  match f.values, f.value with
  | some vs, _ => .ok (.inSet f.column (.values vs) f.negated)
  | none, none => .ok (.nullCheck f.column f.negated)
  | none, some v => (Operator.ofToken f.op).map fun op => .compare f.column op v f.negated

/-- A WHERE entry adds the predicate that it describes; a set membership test by AND. -/
theorem resolve_call (f : Filter) :
    f.call.resolve = f.predicate.map fun p =>
      .push [(if f.values.isSome then .and else f.connective, p)] := by
  rcases f with ⟨column, op, value, values, connective, negated⟩
  cases values with
  | some vs => rfl
  | none =>
      cases value with
      | none => rfl
      | some v =>
          have hcall : (call ⟨column, op, some v, none, connective, negated⟩).resolve =
              (Operator.ofToken op).map fun op =>
                .push [(connective, .compare column op v negated)] := rfl
          rw [hcall, predicate]
          cases Operator.ofToken op <;> rfl

/-- Only a filter that compares describes nothing if its operator is unknown. -/
theorem isOk_predicate (f : Filter) :
    f.predicate.isOk = true ↔ (f.Compares → f.HasOperator) := by
  rcases f with ⟨column, op, value, values, connective, negated⟩
  cases values with
  | some vs => exact iff_of_true rfl fun h => nomatch h.1
  | none =>
      cases value with
      | none => exact iff_of_true rfl fun h => absurd rfl h.2
      | some v =>
          have hcompares : Compares ⟨column, op, some v, none, connective, negated⟩ :=
            ⟨rfl, Option.some_ne_none v⟩
          rw [predicate, isOk_map, forall_prop_of_true hcompares, HasOperator]

theorem isAccepted_call (f : Filter) :
    f.call.isAccepted = true ↔ (f.Compares → f.HasOperator) := by
  rw [Call.isAccepted, resolve_call, isOk_map, isOk_predicate]

/-- The predicate of a HAVING entry: a comparison with its value, or with NULL. -/
def groupPredicate (f : Filter) (op : Operator) : Predicate :=
  .compare f.column op (f.value.getD .null) false

/-- A HAVING entry compares whatever it describes. -/
theorem resolve_havingCall (f : Filter) :
    f.havingCall.resolve = (Operator.ofToken f.op).map fun op =>
      .addHaving ⟨f.connective, f.groupPredicate op⟩ :=
  rfl

theorem isAccepted_havingCall (f : Filter) : f.havingCall.isAccepted = true ↔ f.HasOperator := by
  rw [Call.isAccepted, resolve_havingCall, isOk_map, HasOperator]

/-- A HAVING entry becomes the predicate that it describes if that is a comparison, and not a
negated one. -/
theorem predicate_eq_ok_iff {f : Filter} {op : Operator} (hop : Operator.ofToken f.op = .ok op) :
    f.predicate = .ok (f.groupPredicate op) ↔ f.Compares ∧ f.negated = false := by
  rcases f with ⟨column, token, value, values, connective, negated⟩
  cases values with
  | some vs =>
      refine iff_of_false (fun h => ?_) fun h => nomatch h.1.1
      cases op <;> exact nomatch Except.ok.inj h
  | none =>
      cases value with
      | none =>
          refine iff_of_false (fun h => ?_) fun h => absurd rfl h.1.2
          cases op <;> exact nomatch Except.ok.inj h
      | some v =>
          have hcompares : Compares ⟨column, token, some v, none, connective, negated⟩ :=
            ⟨rfl, Option.some_ne_none v⟩
          have hdescribed : predicate ⟨column, token, some v, none, connective, negated⟩ =
              .ok (.compare column op v negated) := by
            rw [predicate, hop]
            rfl
          rw [hdescribed, Except.ok.injEq, groupPredicate, Option.getD_some,
            Predicate.compare_negated_inj]
          exact (and_iff_right hcompares).symm

end Filter

/-! ## Definitions -/

/-- Every call of a definition is accepted if its entries are. -/
theorem forall_steps_iff (d : Definition) :
    (∀ c ∈ d.steps.map Prod.snd, c.isAccepted = true) ↔
      (∀ j ∈ d.joins, j.Sound) ∧ (∀ f ∈ d.filters, f.Compares → f.HasOperator) ∧
        ∀ f ∈ d.having, f.HasOperator := by
  have hselect (name : String) : (Call.select name).isAccepted = true := rfl
  have horder (ascending : Bool) (columns : List String) :
      (Call.order ascending columns).isAccepted = true := rfl
  have hdistinct : Call.distinct.isAccepted = true := rfl
  have hgroups (columns : List String) : (Call.groupBy columns).isAccepted = true := rfl
  simp only [steps, List.map_append, List.forall_mem_append, List.forall_mem_map, hselect, horder,
    JoinEntry.isAccepted_call, Filter.isAccepted_call, Filter.isAccepted_havingCall]
  simp [and_assoc, hdistinct, hgroups]

/-- **A definition becomes a query exactly if** each of its joins can be made, each filter that
compares its column with a value has a known operator, and each HAVING entry has one, wherever
in their lists they stand. A filter with a list of values, or without a value, is taken whatever
its operator is. -/
theorem isOk_toQuery_iff (d : Definition) :
    d.toQuery.isOk = true ↔
      (∀ j ∈ d.joins, j.Sound) ∧ (∀ f ∈ d.filters, f.Compares → f.HasOperator) ∧
        ∀ f ∈ d.having, f.HasOperator := by
  rw [← forall_steps_iff, isOk_eq_true_iff, toQuery]
  simp only [Query.runAll_eq_ok_iff, exists_and_left, exists_eq', and_true]

/-- A list of values hides an operator that nobody knows. -/
theorem isOk_toQuery_unknownOperator :
    ¬ ∀ d : Definition, (∃ f ∈ d.filters ++ d.having, ¬ f.HasOperator) →
      d.toQuery.isOk = false := by
  intro h
  have hunknown : ¬ Filter.HasOperator
      { column := "id", op := "=~", values := some [.int 1, .int 2] } := by
    rw [Filter.HasOperator]
    decide
  have hfails := h
    { table := "t", filters := [{ column := "id", op := "=~", values := some [.int 1, .int 2] }] }
    ⟨_, List.mem_cons_self, hunknown⟩
  exact nomatch hfails

/-! ## HAVING entries -/

/-- The calls of a definition about its groups. -/
def groupingCalls (d : Definition) : List Call :=
  (if d.groupBy.isEmpty then [] else [.groupBy d.groupBy]) ++ d.having.map Filter.havingCall

theorem Filter.clause_call (f : Filter) : f.call.clause = .conditions := by
  rcases f with ⟨column, op, value, values, connective, negated⟩
  cases values <;> cases value <;> rfl

theorem JoinEntry.clause_call (j : JoinEntry) : j.call.clause = .joins := by
  rw [JoinEntry.call]
  split <;> rfl

/-- The calls of a definition, clause by clause. -/
theorem calls_eq (d : Definition) :
    d.steps.map Prod.snd =
      (if d.distinct then [.distinct] else []) ++ d.select.map .select ++
        d.joins.map JoinEntry.call ++ d.filters.map Filter.call ++ d.groupingCalls ++
        d.order.map fun o => .order (!o.descending) [o.column] := by
  have hdistinct :
      (if d.distinct then [(([] : List Notice), Call.distinct)] else []).map Prod.snd =
        if d.distinct then [.distinct] else [] := by
    split <;> rfl
  have hgroups : (if d.groupBy.isEmpty then [] else
      [(([] : List Notice), Call.groupBy d.groupBy)]).map Prod.snd =
        if d.groupBy.isEmpty then [] else [.groupBy d.groupBy] := by
    split <;> rfl
  simp only [steps, groupingCalls, List.map_append, List.map_map, List.append_assoc, hdistinct,
    hgroups]
  rfl

/-- The calls about the groups stand together; no other call is about them. -/
theorem exists_calls_eq (d : Definition) :
    ∃ before after, d.steps.map Prod.snd = before ++ d.groupingCalls ++ after ∧
      (∀ c ∈ before, c.clause ≠ .grouping) ∧ ∀ c ∈ after, c.clause ≠ .grouping := by
  refine ⟨_, _, d.calls_eq, ?_, ?_⟩
  · simp only [List.forall_mem_append, List.forall_mem_map, Filter.clause_call,
      JoinEntry.clause_call]
    simp [Call.clause]
  · simp [Call.clause]

/-- What a query of the definition takes from the edits about its groups. -/
theorem filterMap_edits_steps {α : Type} (d : Definition) {f : Edit → Option α}
    (hf : ∀ e : Edit, e.clause ≠ .grouping → f e = none) :
    (Call.edits (d.steps.map Prod.snd)).filterMap f =
      (Call.edits d.groupingCalls).filterMap f := by
  obtain ⟨before, after, hsteps, hbefore, hafter⟩ := d.exists_calls_eq
  rw [hsteps, Call.edits_append, Call.edits_append, List.filterMap_append, List.filterMap_append,
    Call.filterMap_edits_eq_nil hf hbefore, Call.filterMap_edits_eq_nil hf hafter, List.nil_append,
    List.append_nil]

/-- What a HAVING entry becomes. -/
def Filter.Becomes (f : Filter) (e : HavingEntry) : Prop :=
  e.connective = f.connective ∧
    ∃ op, Operator.ofToken f.op = .ok op ∧ e.predicate = f.groupPredicate op

/-- The edits of HAVING entries: one for each of them, in their order. -/
theorem exists_edits_havingCall {fs : List Filter} (h : ∀ f ∈ fs, f.HasOperator) :
    ∃ entries, Call.edits (fs.map Filter.havingCall) = entries.map .addHaving ∧
      List.Forall₂ Filter.Becomes fs entries := by
  induction fs with
  | nil => exact ⟨[], rfl, .nil⟩
  | cons f fs ih =>
      obtain ⟨hf, hfs⟩ := List.forall_mem_cons.1 h
      obtain ⟨entries, hentries, hall⟩ := ih hfs
      obtain ⟨op, hop⟩ := isOk_eq_true_iff.1 hf
      have hresolve : f.havingCall.resolve =
          .ok (.addHaving ⟨f.connective, f.groupPredicate op⟩) := by
        rw [Filter.resolve_havingCall, hop]
        rfl
      refine ⟨⟨f.connective, f.groupPredicate op⟩ :: entries, ?_, .cons ⟨rfl, op, hop, rfl⟩ hall⟩
      rw [List.map_cons, Call.edits_cons_ok hresolve, hentries, List.map_cons]

/-- The groups that edits of a definition leave behind. -/
theorem exists_edits_groupingCalls {d : Definition} (h : ∀ f ∈ d.having, f.HasOperator) :
    ((Call.edits d.groupingCalls).filterMap Edit.groups?).getLast?.getD [] = d.groupBy ∧
      List.Forall₂ Filter.Becomes d.having
        ((Call.edits d.groupingCalls).filterMap Edit.having?) := by
  obtain ⟨entries, hentries, hall⟩ := exists_edits_havingCall h
  have hgroups : (entries.map Edit.addHaving).filterMap Edit.groups? = [] := by
    simp [List.filterMap_map, Edit.groups?]
  have hhaving : (entries.map Edit.addHaving).filterMap Edit.having? = entries := by
    rw [List.filterMap_map]
    exact List.filterMap_some
  rw [groupingCalls, Call.edits_append, hentries, List.filterMap_append, List.filterMap_append,
    hgroups, hhaving, List.append_nil]
  by_cases hempty : d.groupBy.isEmpty
  · rw [if_pos hempty]
    exact ⟨(List.isEmpty_iff.1 hempty).symm, hall⟩
  · rw [if_neg hempty]
    exact ⟨rfl, hall⟩

/-- **What HAVING entries become.** The query of a definition has the grouping columns of the
definition and one HAVING predicate for each entry, in their order and with their words: the
comparison of the column with the value, or with NULL if there is none. This is the predicate
that the entry describes exactly if the entry has a value, no list of values, and is not
negated. -/
theorem having_toQuery {d : Definition} {q : Query} (h : d.toQuery = .ok q) :
    q.grouping.columns = d.groupBy ∧
      List.Forall₂ (fun f e => e.connective = f.connective ∧
        (∃ op, Operator.ofToken f.op = .ok op ∧
          e.predicate = .compare f.column op (f.value.getD .null) false) ∧
        (f.predicate = .ok e.predicate ↔ f.Compares ∧ f.negated = false))
        d.having q.grouping.having := by
  obtain ⟨haccepted, hrun⟩ := Query.runAll_eq_ok_iff.1 h
  obtain ⟨-, -, hoperators⟩ := d.forall_steps_iff.1 haccepted
  obtain ⟨hcolumns, hhaving⟩ := exists_edits_groupingCalls hoperators
  have hgrouping : q.grouping =
      ⟨((Call.edits d.groupingCalls).filterMap Edit.groups?).getLast?.getD [],
        (Call.edits d.groupingCalls).filterMap Edit.having?⟩ := by
    rw [← hrun, Query.run_eq, Query.table, Query.editAll_ofSource, Query.ofEdits,
      d.filterMap_edits_steps fun _ => Edit.groups?_of_clause,
      d.filterMap_edits_steps fun _ => Edit.having?_of_clause]
  rw [hgrouping, hcolumns]
  refine ⟨rfl, hhaving.imp fun f e hbecomes => ?_⟩
  obtain ⟨hconnective, op, hop, he⟩ := hbecomes
  refine ⟨hconnective, ⟨op, hop, he⟩, ?_⟩
  rw [he, Filter.predicate_eq_ok_iff hop]

/-- A definition whose HAVING entries are a comparison, a set membership test and a NULL
check. -/
def groupedSample : Definition where
  table := "t"
  groupBy := ["a"]
  having := [
    { column := "COUNT(id)", op := ">=", value := some (.int 2) },
    { column := "MAX(b)", values := some [.int 1, .int 2], connective := .or },
    { column := "MIN(c)", negated := true }]

/-- The query that it becomes. -/
def groupedQuery : Query :=
  { Query.table "t" none with
    grouping := ⟨["a"], [
      ⟨.and, .comparison "COUNT(id)" .ge (.int 2) false⟩,
      ⟨.or, .comparison "MAX(b)" .eq .null false⟩,
      ⟨.and, .comparison "MIN(c)" .eq .null false⟩]⟩ }

theorem having_toQuery_groupedSample :
    groupedSample.toQuery = .ok groupedQuery ∧
      groupedQuery.grouping.columns = groupedSample.groupBy ∧
      List.Forall₂ (fun f e => e.connective = f.connective ∧
        (∃ op, Operator.ofToken f.op = .ok op ∧
          e.predicate = .compare f.column op (f.value.getD .null) false) ∧
        (f.predicate = .ok e.predicate ↔ f.Compares ∧ f.negated = false))
        groupedSample.having groupedQuery.grouping.having :=
  ⟨rfl, having_toQuery (d := groupedSample) rfl⟩

/-- HAVING entries do not always become what they describe: a list of values is not looked at. -/
theorem having_toQuery_values :
    ¬ ∀ (d : Definition) (q : Query), d.groupBy ≠ [] → d.toQuery = .ok q →
      List.Forall₂ (fun f e => e.connective = f.connective ∧ f.predicate = .ok e.predicate)
        d.having q.grouping.having := by
  intro h
  have hall := h
    { table := "t", groupBy := ["a"],
      having := [{ column := "MAX(b)", values := some [.int 1, .int 2] }] }
    _ (List.cons_ne_nil _ _) rfl
  obtain ⟨⟨-, hpredicate⟩, -⟩ := List.forall₂_cons.1 hall
  exact nomatch Except.ok.inj hpredicate

end Definition

end SelectSql
