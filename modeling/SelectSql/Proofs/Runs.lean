import Mathlib.Data.List.DropRight
import SelectSql.Proofs.Alternatives
import SelectSql.Proofs.Edits

/-!
# SelectSql.Proofs.Runs

What a run of calls leaves behind, if it goes on behind those that are refused. A refused call
has changed nothing, and an accepted one edits one clause and looks at no other. A run is
therefore the edits of its accepted calls (`Query.run_eq`), and each clause of the result is
determined by the edits of that clause (`Query.agree_editAll`), however they are interleaved
with others.

Design points:

* **Two queries are compared clause by clause** (`Query.Agree`). One edit keeps what two
  queries agree in (`Edit.agree_apply`) and leaves every clause but its own alone
  (`Edit.agree_apply_self`); runs follow by induction.
* **The result of a run is read off its edits** (`Query.ofEdits`): the columns behind the
  last star, the last groups, the items of the ordering behind the last clearing, and of the
  other clauses all that was ever added.

Main statement: `Query.run_by_clauses`.
-/

namespace SelectSql

/-! ## Clauses of calls and edits -/

/-- The clauses that calls are about. -/
inductive Clause
  | projection | joins | conditions | grouping | ordering
deriving DecidableEq

/-- The clause that a call is about. -/
def Call.clause : Call → Clause
  | .selectAll | .select _ | .selectAs .. | .selectColumn .. | .selectRaw .. | .selectCount ..
  | .selectAggregate .. | .distinct => .projection
  | .compare .. | .compareColumns .. | .nullCheck .. | .inSet .. | .like .. | .fullText ..
  | .activeAt .. | .predicate .. => .conditions
  | .join .. | .crossJoin .. => .joins
  | .groupBy _ | .having .. => .grouping
  | .order .. | .clearOrder => .ordering

/-- The clause that an edit changes. -/
def Edit.clause : Edit → Clause
  | .star | .addColumn _ | .markDistinct => .projection
  | .addJoin _ => .joins
  | .push _ => .conditions
  | .setGroups _ | .addHaving _ => .grouping
  | .addOrder _ | .clearOrder => .ordering

/-- What is made of a result is there only if the result is. -/
theorem exists_of_map_eq_ok {ε α β : Type} {x : Except ε α} {f : α → β} {b : β}
    (h : x.map f = .ok b) : ∃ a, x = .ok a ∧ f a = b := by
  cases x with
  | error e => exact nomatch h
  | ok a => exact ⟨a, rfl, Except.ok.inj h⟩

/-- What is made of a result is there if the result is. -/
theorem isOk_map {ε α β : Type} (x : Except ε α) (f : α → β) : (x.map f).isOk = x.isOk := by
  cases x <;> rfl

/-- A result is there, or there is an error. -/
theorem isOk_eq_true_iff {ε α : Type} {x : Except ε α} : x.isOk = true ↔ ∃ a, x = .ok a := by
  cases x with
  | error e => exact iff_of_false Bool.false_ne_true fun ⟨_, h⟩ => nomatch h
  | ok a => exact iff_of_true rfl ⟨a, rfl⟩

/-- Whether a call is accepted. -/
def Call.isAccepted (c : Call) : Bool :=
  c.resolve.isOk

/-- The edits of the calls that are accepted. -/
def Call.edits (calls : List Call) : List Edit :=
  calls.filterMap fun c => c.resolve.toOption

/-- A raw column is accepted with as many values as it has markers. -/
theorem Call.of_resolve_selectRaw {sql : String} {params : List Value} {e : Edit}
    (h : (Call.selectRaw sql params).resolve = .ok e) :
    Fragment.countMarkers sql = params.length ∧ e = .addColumn (.raw sql params false) := by
  rw [resolve] at h
  split at h
  · next hcount => exact ⟨hcount, (Except.ok.inj h).symm⟩
  · contradiction

/-- A join is accepted if it is no cross join and its conditions are read. -/
theorem Call.of_resolve_join {kind : JoinKind} {target : JoinTarget} {on : ConditionSpec}
    {asName : String} {e : Edit} (h : (Call.join kind target on asName).resolve = .ok e) :
    kind ≠ .cross ∧
      ∃ terms, on.resolve = .ok terms ∧ e = .addJoin ⟨target, kind, terms, asName⟩ := by
  rw [resolve] at h
  split at h
  · contradiction
  · next hkind =>
    obtain ⟨terms, hterms, rfl⟩ := exists_of_map_eq_ok h
    exact ⟨hkind, terms, hterms, rfl⟩

/-- An accepted call edits the clause that it is about. -/
theorem Call.clause_resolve {c : Call} {e : Edit} (h : c.resolve = .ok e) :
    e.clause = c.clause := by
  cases c with
  | selectRaw sql params =>
      obtain ⟨-, rfl⟩ := of_resolve_selectRaw h
      rfl
  | compare | compareColumns | having =>
      obtain ⟨op, -, rfl⟩ := exists_of_map_eq_ok h
      rfl
  | join kind target on asName =>
      obtain ⟨-, terms, -, rfl⟩ := of_resolve_join h
      rfl
  | _ => exact Except.ok.inj h ▸ rfl

namespace Call

theorem isAccepted_of_ok {c : Call} {e : Edit} (h : c.resolve = .ok e) : c.isAccepted = true := by
  rw [isAccepted, h]
  rfl

theorem isAccepted_of_error {c : Call} {e : QueryError} (h : c.resolve = .error e) :
    c.isAccepted = false := by
  rw [isAccepted, h]
  rfl

@[simp] theorem edits_nil : edits [] = [] := rfl

theorem edits_cons_ok {c : Call} {e : Edit} (h : c.resolve = .ok e) (calls : List Call) :
    edits (c :: calls) = e :: edits calls := by
  simp [edits, h, Except.toOption]

theorem edits_cons_error {c : Call} {e : QueryError} (h : c.resolve = .error e)
    (calls : List Call) : edits (c :: calls) = edits calls := by
  simp [edits, h, Except.toOption]

theorem edits_append (calls calls' : List Call) :
    edits (calls ++ calls') = edits calls ++ edits calls' :=
  List.filterMap_append

/-- Every edit of a run is that of one of its calls, and of the clause of this call. -/
theorem exists_of_mem_edits {calls : List Call} {e : Edit} (h : e ∈ edits calls) :
    ∃ c ∈ calls, e.clause = c.clause := by
  obtain ⟨c, hc, hresolve⟩ := List.mem_filterMap.1 h
  cases hok : c.resolve with
  | error e' => simp [hok, Except.toOption] at hresolve
  | ok e' =>
      obtain rfl : e' = e := by simpa [hok, Except.toOption] using hresolve
      exact ⟨c, hc, clause_resolve hok⟩

/-- Calls about other clauses add nothing to a clause. -/
theorem filterMap_edits_eq_nil {α : Type} {f : Edit → Option α} {k : Clause}
    (hf : ∀ e : Edit, e.clause ≠ k → f e = none) {calls : List Call}
    (h : ∀ c ∈ calls, c.clause ≠ k) : (edits calls).filterMap f = [] := by
  refine List.filterMap_eq_nil_iff.2 fun e he => hf e ?_
  obtain ⟨c, hc, hclause⟩ := exists_of_mem_edits he
  exact hclause ▸ h c hc

/-- Refused calls have no edits. -/
theorem edits_filter_isAccepted (calls : List Call) :
    edits (calls.filter isAccepted) = edits calls := by
  induction calls with
  | nil => rfl
  | cons c calls ih =>
      cases h : c.resolve with
      | error e =>
          rw [List.filter_cons, isAccepted_of_error h, if_neg Bool.false_ne_true, ih,
            edits_cons_error h]
      | ok e =>
          rw [List.filter_cons, isAccepted_of_ok h, if_pos rfl, edits_cons_ok h, ih,
            edits_cons_ok h]

/-- The edits of a clause are those of the calls about it. -/
theorem filter_clause_edits (k : Clause) (calls : List Call) :
    (edits calls).filter (fun e => e.clause = k) =
      edits (calls.filter fun c => c.isAccepted && decide (c.clause = k)) := by
  induction calls with
  | nil => rfl
  | cons c calls ih =>
      cases h : c.resolve with
      | error e =>
          rw [edits_cons_error h, ih, List.filter_cons, isAccepted_of_error h, Bool.false_and,
            if_neg Bool.false_ne_true]
      | ok e =>
          rw [edits_cons_ok h, List.filter_cons, List.filter_cons, isAccepted_of_ok h,
            Bool.true_and, clause_resolve h, ih]
          by_cases hk : c.clause = k
          · rw [if_pos (by simpa using hk), if_pos (by simpa using hk), edits_cons_ok h]
          · rw [if_neg (by simpa using hk), if_neg (by simpa using hk)]

end Call

/-! ## Runs as edits -/

namespace Query

/-- The query after edits. -/
def editAll (q : Query) (es : List Edit) : Query :=
  es.foldl (fun q e => e.apply q) q

@[simp] theorem editAll_nil (q : Query) : q.editAll [] = q := rfl

@[simp] theorem editAll_cons (q : Query) (e : Edit) (es : List Edit) :
    q.editAll (e :: es) = (e.apply q).editAll es := rfl

theorem editAll_concat (q : Query) (es : List Edit) (e : Edit) :
    q.editAll (es ++ [e]) = e.apply (q.editAll es) := by
  rw [editAll, List.foldl_concat]
  rfl

/-- A run is the edits of its accepted calls. -/
theorem run_eq (q : Query) (calls : List Call) : q.run calls = q.editAll (Call.edits calls) := by
  induction calls generalizing q with
  | nil => rfl
  | cons c calls ih =>
      rw [run_cons]
      cases h : c.resolve with
      | error e => rw [after_of_error h, ih, Call.edits_cons_error h]
      | ok e => rw [after_of_ok h, ih, Call.edits_cons_ok h, editAll_cons]

/-- Whether a call is accepted, and why it is refused, depends on its arguments alone. -/
theorem call_independent (q q' : Query) (c : Call) :
    (q.call c).map (fun _ => ()) = (q'.call c).map fun _ => () := by
  rw [call_eq, call_eq]
  cases c.resolve <;> rfl

theorem isOk_call (q : Query) (c : Call) : (q.call c).isOk = c.isAccepted := by
  rw [call_eq, isOk_map, Call.isAccepted]

/-- A run that stops at a refused call has a result exactly if every call is accepted, and then
that of the run that goes on. -/
theorem runAll_eq_ok_iff {q q' : Query} {calls : List Call} :
    q.runAll calls = .ok q' ↔ (∀ c ∈ calls, c.isAccepted = true) ∧ q.run calls = q' := by
  induction calls generalizing q with
  | nil => simp [runAll, run]
  | cons c calls ih =>
      rw [runAll, run_cons, after_eq, List.forall_mem_cons, ← isOk_call q]
      cases h : q.call c with
      | error e => simp [Except.isOk, Except.toBool]
      | ok q₁ => simp [Except.isOk, Except.toBool, Except.toOption, ih]

/-! ## Clause by clause -/

/-- Two queries have a clause in common. -/
def Agree (q q' : Query) : Clause → Prop
  | .projection => q.projection = q'.projection
  | .joins => q.joins = q'.joins
  | .conditions => q.conditions = q'.conditions
  | .grouping => q.grouping = q'.grouping
  | .ordering => q.ordering = q'.ordering

theorem Agree.refl (q : Query) (k : Clause) : q.Agree q k := by
  cases k <;> rfl

theorem Agree.symm {q q' : Query} {k : Clause} (h : q.Agree q' k) : q'.Agree q k := by
  cases k <;> exact Eq.symm h

theorem Agree.trans {q₁ q₂ q₃ : Query} {k : Clause} (h : q₁.Agree q₂ k) (h' : q₂.Agree q₃ k) :
    q₁.Agree q₃ k := by
  cases k <;> exact Eq.trans h h'

/-- Queries over one source that agree in every clause are equal. -/
theorem eq_of_agree {q q' : Query} (hsource : q.source = q'.source) (h : ∀ k, q.Agree q' k) :
    q = q' := by
  rcases q with ⟨source, projection, joins, conditions, grouping, ordering⟩
  rcases q' with ⟨source', projection', joins', conditions', grouping', ordering'⟩
  obtain rfl : source = source' := hsource
  obtain rfl : projection = projection' := h .projection
  obtain rfl : joins = joins' := h .joins
  obtain rfl : conditions = conditions' := h .conditions
  obtain rfl : grouping = grouping' := h .grouping
  obtain rfl : ordering = ordering' := h .ordering
  rfl

end Query

namespace Edit

/-- An edit looks at no clause but its own. -/
theorem agree_apply (e : Edit) {q q' : Query} {k : Clause} (h : q.Agree q' k) :
    (e.apply q).Agree (e.apply q') k := by
  cases k <;> cases e <;> simp_all [Query.Agree, apply]

/-- An edit leaves every clause but its own alone. -/
theorem agree_apply_self {e : Edit} {k : Clause} (h : e.clause ≠ k) (q : Query) :
    (e.apply q).Agree q k := by
  cases e <;> cases k <;> first | exact absurd rfl h | rfl

@[simp] theorem source_apply (e : Edit) (q : Query) : (e.apply q).source = q.source := by
  cases e <;> rfl

end Edit

namespace Query

@[simp] theorem source_editAll (q : Query) (es : List Edit) :
    (q.editAll es).source = q.source := by
  induction es generalizing q with
  | nil => rfl
  | cons e es ih => rw [editAll_cons, ih, Edit.source_apply]

/-- A clause is what the edits of this clause make of it. -/
theorem agree_editAll {q q' : Query} {k : Clause} (h : q.Agree q' k) (es : List Edit) :
    (q.editAll es).Agree (q'.editAll (es.filter fun e => e.clause = k)) k := by
  induction es generalizing q q' with
  | nil => exact h
  | cons e es ih =>
      rw [editAll_cons]
      by_cases hk : e.clause = k
      · rw [List.filter_cons_of_pos (by simpa using hk), editAll_cons]
        exact ih (Edit.agree_apply e h)
      · rw [List.filter_cons_of_neg (by simpa using hk)]
        exact ih ((Edit.agree_apply_self hk q).trans h)

/-- Edits with the same subsequence for each clause lead to the same query. -/
theorem editAll_eq_of_filter {es es' : List Edit}
    (h : ∀ k, es.filter (fun e => e.clause = k) = es'.filter fun e => e.clause = k) (q : Query) :
    q.editAll es = q.editAll es' := by
  refine eq_of_agree (by simp) fun k => ?_
  have hes := agree_editAll (Agree.refl q k) es
  have hes' := agree_editAll (Agree.refl q k) es'
  rw [← h k] at hes'
  exact hes.trans hes'.symm

end Query

/-! ## What edits leave behind -/

namespace Edit

/-- Whether an edit replaces the columns by the star. -/
def isStar : Edit → Bool
  | .star => true
  | _ => false

/-- Whether an edit asks for each row once. -/
def isDistinct : Edit → Bool
  | .markDistinct => true
  | _ => false

/-- Whether an edit clears the ordering. -/
def isClear : Edit → Bool
  | .clearOrder => true
  | _ => false

/-- The column that an edit adds. -/
def column? : Edit → Option Column
  | .addColumn c => some c
  | _ => none

/-- The join that an edit adds. -/
def join? : Edit → Option Join
  | .addJoin j => some j
  | _ => none

/-- The predicates that an edit adds, with the words that combine them with the others. -/
def pushes : Edit → List (Connective × Predicate)
  | .push ps => ps
  | _ => []

/-- The grouping columns that an edit sets. -/
def groups? : Edit → Option (List String)
  | .setGroups columns => some columns
  | _ => none

/-- The HAVING predicate that an edit adds, with its word. -/
def having? : Edit → Option HavingEntry
  | .addHaving entry => some entry
  | _ => none

/-- The items that an edit adds to the ordering. -/
def orderTerms : Edit → List OrderTerm
  | .addOrder terms => terms
  | _ => []

end Edit

namespace Query

/-- The query that edits leave behind: the columns since the last star, behind it, or all
columns if there is no star; the rows once if that was ever asked for; all joins; the
predicates, cut before every AND; the last groups; all HAVING predicates; and the ordering
since it was last cleared. -/
def ofEdits (source : Source) (es : List Edit) : Query where
  source := source
  projection := {
    columns := (if es.any Edit.isStar then [Column.star] else []) ++
      (es.rtakeWhile fun e => !e.isStar).filterMap Edit.column?
    distinct := es.any Edit.isDistinct }
  joins := es.filterMap Edit.join?
  conditions := (Predicate.pieces (es.flatMap Edit.pushes)).map Predicate.joined
  grouping := ⟨(es.filterMap Edit.groups?).getLast?.getD [], es.filterMap Edit.having?⟩
  ordering := (es.rtakeWhile fun e => !e.isClear).flatMap Edit.orderTerms

/-- One more edit. -/
theorem ofEdits_concat (source : Source) (es : List Edit) (e : Edit) :
    ofEdits source (es ++ [e]) = e.apply (ofEdits source es) := by
  have hpush (pushes : List (Connective × Predicate)) :
      (Predicate.pieces (es.flatMap Edit.pushes ++ pushes)).map Predicate.joined =
        Predicate.pushAll pushes
          ((Predicate.pieces (es.flatMap Edit.pushes)).map Predicate.joined) := by
    rw [← Predicate.pushAll_eq, ← Predicate.pushAll_eq, Predicate.pushAll_append]
  cases e <;>
    simp [ofEdits, Edit.apply, Edit.isStar, Edit.isDistinct, Edit.isClear, Edit.column?,
      Edit.join?, Edit.pushes, Edit.groups?, Edit.having?, Edit.orderTerms, hpush]

/-- What edits of a fresh query leave behind. -/
theorem editAll_ofSource (source : Source) (es : List Edit) :
    (ofSource source).editAll es = ofEdits source es := by
  induction es using List.reverseRecOn with
  | nil => rfl
  | append_singleton es e ih => rw [editAll_concat, ih, ofEdits_concat]

/-- **A run depends on the accepted calls of each clause only.** Whether a call is accepted,
and why it is refused, depends on its arguments and not on the query; without the refused
calls the run ends in the same query; and so does every run whose accepted calls are, clause
by clause, the same in the same order. The result for a fresh query is read off the edits. -/
theorem run_by_clauses (q : Query) (calls : List Call) :
    (∀ (q' : Query) (c : Call), (q'.call c).isOk = c.isAccepted ∧
      (q.call c).map (fun _ => ()) = (q'.call c).map fun _ => ()) ∧
    q.run (calls.filter Call.isAccepted) = q.run calls ∧
    (∀ calls' : List Call,
      (∀ k, (calls.filter fun c => c.isAccepted && decide (c.clause = k)) =
        calls'.filter fun c => c.isAccepted && decide (c.clause = k)) →
      q.run calls = q.run calls') ∧
    ∀ source, (ofSource source).run calls = ofEdits source (Call.edits calls) := by
  refine ⟨fun q' c => ⟨isOk_call q' c, call_independent q q' c⟩, ?_, fun calls' h => ?_,
    fun source => ?_⟩
  · rw [run_eq, run_eq, Call.edits_filter_isAccepted]
  · rw [run_eq, run_eq]
    refine editAll_eq_of_filter (fun k => ?_) q
    rw [Call.filter_clause_edits, Call.filter_clause_edits, h k]
  · rw [run_eq, editAll_ofSource]

/-- Calls about every clause, some of which are refused. -/
def mixedCalls : List Call :=
  [.select "a", .compare .and false "a" (.token "=") (.int 1), .groupBy ["a"], .selectAll,
    .compare .or false "b" (.token "=~") .null, .having .or "MAX(b)" (.known .gt) (.int 2),
    .order true ["a"], .distinct, .compare .or true "b" (.token "like") (.text "x%"),
    .clearOrder, .select "c", .groupBy ["c"], .order false ["c", "d"],
    .join .cross (.table "t") (.single "a" "=" "b") "t", .crossJoin "u" "v"]

/-- The same calls in another order between the clauses, and without those refused. -/
def sortedCalls : List Call :=
  [.crossJoin "u" "v", .order true ["a"], .clearOrder, .order false ["c", "d"],
    .groupBy ["a"], .having .or "MAX(b)" (.known .gt) (.int 2), .groupBy ["c"],
    .compare .and false "a" (.token "=") (.int 1),
    .compare .or true "b" (.token "like") (.text "x%"),
    .select "a", .selectAll, .distinct, .select "c"]

theorem run_by_clauses_mixedCalls :
    (∀ k, (mixedCalls.filter fun c => c.isAccepted && decide (c.clause = k)) =
      sortedCalls.filter fun c => c.isAccepted && decide (c.clause = k)) ∧
    (table "t" none).run mixedCalls = (table "t" none).run sortedCalls := by
  have h : ∀ k, (mixedCalls.filter fun c => c.isAccepted && decide (c.clause = k)) =
      sortedCalls.filter fun c => c.isAccepted && decide (c.clause = k) := by
    intro k
    cases k <;> rfl
  exact ⟨h, (run_by_clauses (table "t" none) mixedCalls).2.2.1 sortedCalls h⟩

end Query

end SelectSql
