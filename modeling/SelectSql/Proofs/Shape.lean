import SelectSql.Proofs.Edits
import SelectSql.Proofs.Erasure

/-!
# SelectSql.Proofs.Shape

The bound text of a query depends on its shape alone: on what remains when every value
is replaced by NULL, full text comparisons keep the length of their texts, and patterns
keep nothing. No data reaches the text, and none decides how it is written.

Design points:

* **Every placeholder is written by its number**, so a tree and the tree without its
  values have the same text (`Doc.text_erase`), whatever the quotes of the caller.
* **Building a query respects shapes.** A call is refused or accepted by its shape, and
  what it does to a clause is seen in the shape of the clause (`Query.shape_call`).

Main statement: `Query.sql_of_shape`.
-/

namespace SelectSql

/-- A value without its data. -/
def Value.forget (_ : Value) : Value :=
  .null

theorem Value.forgets_forget : Forgets Value.forget :=
  ⟨fun _ _ => rfl, fun _ => rfl⟩

/-! ## The bound text -/

section Bound

variable (f : Value → Value) (d : Dialect)

/-- A placeholder does not show its value. -/
theorem Template.render_erase (k : Nat) (t : Template) :
    render ⟨d, .bound⟩ k (t.erase f) = render ⟨d, .bound⟩ k t := by
  induction t generalizing k with
  | nil => rfl
  | cons x t ih =>
      cases x with
      | char c => exact congrArg (c :: ·) (ih k)
      | value v => exact congrArg (Rendering.slot ⟨d, .bound⟩ k v ++ ·) (ih (k + 1))

/-- **The bound text of a tree does not show its values.** -/
theorem Doc.text_erase (k : Nat) (a : Doc) :
    (a.map (Leaf.erase f)).text ⟨d, .bound⟩ k = a.text ⟨d, .bound⟩ k := by
  induction a generalizing k with
  | own s plain => rfl
  | leaf l =>
      rw [map, text, text, Leaf.template_erase]
      exact Template.render_erase f d k _
  | append a b iha ihb => rw [map, text, text, iha, ihb, values_erase, List.length_map]
  | parens a ih => rw [map, text, text, ih]
  | collapsed a ih => rw [map, text, text, ih]
  | headed head plain a ih => rw [map, text, text, ih]
  | clause a b iha ihb => rw [map, text, text, iha, ihb, values_erase, List.length_map]

end Bound

/-! ## Shapes -/

/-- The query without its data. -/
def Query.shape (q : Query) : Query :=
  q.erase Value.forget

/-- Queries of one shape have the same bound text, and as many values. -/
theorem Query.compile_of_shape {q q' : Query} (h : q.shape = q'.shape) (d : Dialect) :
    (q.compile d).sql = (q'.compile d).sql ∧
      (q.compile d).params.length = (q'.compile d).params.length := by
  have hdoc : (q.doc d).map (Leaf.erase Value.forget) =
      (q'.doc d).map (Leaf.erase Value.forget) := by
    rw [← Query.erase_doc Value.forgets_forget d q, ← Query.erase_doc Value.forgets_forget d q']
    exact congrArg (fun p : Query => (p.doc d).map (Leaf.erase Value.forget)) h
  have htext := congrArg (fun a : Doc => a.text ⟨d, .bound⟩ 0) hdoc
  have hvalues := congrArg (fun a : Doc => a.values.length) hdoc
  simp only [Doc.text_erase] at htext
  simp only [Doc.values_erase, List.length_map] at hvalues
  rw [compile_eq, compile_eq]
  exact ⟨congrArg String.ofList htext, hvalues⟩

/-! ## Building -/

/-- Of two results of which the same is made both are there, or both are the same error. -/
theorem cases_of_map_eq_map {ε α β : Type} {f : α → β} {x y : Except ε α}
    (h : x.map f = y.map f) :
    (∃ e, x = .error e ∧ y = .error e) ∨ ∃ a b, x = .ok a ∧ y = .ok b ∧ f a = f b := by
  cases x with
  | error e =>
      cases y with
      | error e' => exact .inl ⟨e, rfl, congrArg _ (Except.error.inj h).symm⟩
      | ok b => exact nomatch h
  | ok a =>
      cases y with
      | error e' => exact nomatch h
      | ok b => exact .inr ⟨a, b, rfl, rfl, Except.ok.inj h⟩

theorem Predicate.eraseAll_eq_map (f : Value → Value) (ps : List Predicate) :
    Predicate.eraseAll f ps = ps.map (Predicate.erase f) := by
  induction ps with
  | nil => rfl
  | cons p ps ih => rw [eraseAll, ih, List.map_cons]

theorem Join.eraseAll_eq_map (f : Value → Value) (js : List Join) :
    Join.eraseAll f js = js.map (Join.erase f) := by
  induction js with
  | nil => rfl
  | cons j js ih => rw [eraseAll, ih, List.map_cons]

/-- A HAVING predicate without its data. -/
def HavingEntry.erase (f : Value → Value) (e : HavingEntry) : HavingEntry :=
  ⟨e.connective, e.predicate.erase f⟩

theorem HavingEntry.eraseAll_eq_map (f : Value → Value) (es : List HavingEntry) :
    HavingEntry.eraseAll f es = es.map (HavingEntry.erase f) := by
  induction es with
  | nil => rfl
  | cons e es ih =>
      obtain ⟨connective, predicate⟩ := e
      rw [eraseAll, ih, List.map_cons, erase]

/-- A predicate without its data. -/
def Predicate.shape (p : Predicate) : Predicate :=
  p.erase Value.forget

/-- The call without its data. -/
def Call.shape : Call → Call
  | .selectRaw sql params => .selectRaw sql (params.map Value.forget)
  | .compare connective negated column op value =>
    .compare connective negated column op value.forget
  | .inSet negated column source => .inSet negated column (source.erase Value.forget)
  | .like column _ options negated => .like column "" options negated
  | .fullText negated column value => .fullText negated column (blanked value)
  | .activeAt start stop _ => .activeAt start stop 0
  | .predicate connective p => .predicate connective p.shape
  | .join kind target on asName => .join kind (target.erase Value.forget) on asName
  | .having connective column op value => .having connective column op value.forget
  | c => c

/-- The edit without its data. -/
def Edit.shape : Edit → Edit
  | .addColumn c => .addColumn (c.erase Value.forget)
  | .addJoin j => .addJoin (j.erase Value.forget)
  | .push pushes => .push (pushes.map fun c => (c.1, c.2.shape))
  | .addHaving entry => .addHaving (entry.erase Value.forget)
  | e => e

/-- The operator alone decides what a comparison becomes. -/
theorem Predicate.compare_forget (column : String) (op : Operator) (v : Value) (negated : Bool) :
    compare column op v.forget negated = (compare column op v negated).shape := by
  cases op <;> rfl

/-- The edit without its data that the shape of a call stands for. The conditions of a span
of time hold the time twice, whatever is left of it. -/
def Call.resolveShape : Call → Except QueryError Edit
  | .activeAt start stop time => .ok (Edit.push (Predicate.activeAt start stop time)).shape
  | c => c.resolve

/-- What a call is resolved to, its data apart, is seen from its shape. -/
theorem Call.shape_resolve (c : Call) : c.resolve.map Edit.shape = c.shape.resolveShape := by
  cases c with
  | selectRaw sql params =>
      simp only [resolve, shape, resolveShape, List.length_map]
      split <;> rfl
  | compare connective negated column op value =>
      simp only [resolve, shape, resolveShape, Predicate.compare_forget]
      cases op.resolve <;> rfl
  | compareColumns connective column op other =>
      simp only [resolve, shape, resolveShape]
      cases op.resolve <;> rfl
  | having connective column op value =>
      simp only [resolve, shape, resolveShape, Predicate.compare_forget]
      cases op.resolve <;> rfl
  | join kind target on asName =>
      simp only [resolve, shape, resolveShape]
      split
      · cases target <;> rfl
      · cases on.resolve <;> rfl
  | _ => rfl

theorem Predicate.shape_alternatives (p : Predicate) :
    p.alternatives.map shape = p.shape.alternatives := by
  cases p with
  | anyOf ps => exact (eraseAll_eq_map Value.forget ps).symm
  | _ => rfl

theorem Predicate.shape_orElse (p next : Predicate) :
    (p.orElse next).shape = p.shape.orElse next.shape := by
  rw [orElse, orElse, shape, erase, eraseAll_eq_map, List.map_append, ← shape_alternatives]
  rfl

/-- Adding a predicate respects shapes. -/
theorem Predicate.shape_push (connective : Connective) (p : Predicate) (ps : List Predicate) :
    (push connective p ps).map shape = push connective p.shape (ps.map shape) := by
  induction ps with
  | nil => rfl
  | cons q ps ih =>
      cases ps with
      | nil =>
          cases connective with
          | and => rfl
          | or => exact congrArg (· :: []) (shape_orElse q p)
      | cons r rest => exact congrArg (q.shape :: ·) ih

theorem Predicate.shape_pushAll (pushes : List (Connective × Predicate)) (ps : List Predicate) :
    (pushAll pushes ps).map shape =
      pushAll (pushes.map fun c => (c.1, c.2.shape)) (ps.map shape) := by
  induction pushes generalizing ps with
  | nil => rfl
  | cons c pushes ih =>
      have hstep (c : Connective × Predicate) (cs : List (Connective × Predicate))
          (ps : List Predicate) : pushAll (c :: cs) ps = pushAll cs (push c.1 c.2 ps) := rfl
      rw [hstep, ih, shape_push, List.map_cons, hstep]

/-- An edit changes the shape of a query as its own shape says. -/
theorem Edit.shape_apply (e : Edit) (q : Query) : (e.apply q).shape = e.shape.apply q.shape := by
  rcases q with ⟨source, projection, joins, conditions, grouping, ordering⟩
  cases e with
  | addColumn c =>
      simp [apply, shape, Query.shape, Query.erase, Projection.erase]
  | addJoin j =>
      simp [apply, shape, Query.shape, Query.erase, Join.eraseAll_eq_map]
  | push pushes =>
      have hpush := Predicate.shape_pushAll pushes conditions
      simp only [apply, shape, Query.shape, Query.erase, Predicate.eraseAll_eq_map]
      exact congrArg (fun ps => Query.mk _ _ _ ps _ _) hpush
  | addHaving entry =>
      rcases grouping with ⟨columns, having⟩
      simp [apply, shape, Query.shape, Query.erase, Grouping.erase, HavingEntry.eraseAll_eq_map]
  | setGroups columns =>
      rcases grouping with ⟨columns', having⟩
      simp [apply, shape, Query.shape, Query.erase, Grouping.erase]
  | _ => rfl

namespace Query

/-- **A call respects shapes**: it is refused for the same reason, or it leads to queries of
one shape again. -/
theorem shape_call {q q' : Query} {c c' : Call} (hq : q.shape = q'.shape)
    (hc : c.shape = c'.shape) : (q.call c).map shape = (q'.call c').map shape := by
  have hcall (q : Query) (c : Call) :
      (q.call c).map shape = c.shape.resolveShape.map fun e => e.apply q.shape := by
    rw [← Call.shape_resolve, call_eq]
    cases c.resolve with
    | error e => rfl
    | ok e => exact congrArg Except.ok (Edit.shape_apply e q)
  rw [hcall, hcall, hq, hc]

/-- A run in which refused calls change nothing respects shapes. -/
theorem shape_run {q q' : Query} {calls calls' : List Call} (hq : q.shape = q'.shape)
    (hcalls : calls.map Call.shape = calls'.map Call.shape) :
    (q.run calls).shape = (q'.run calls').shape := by
  induction calls generalizing q q' calls' with
  | nil =>
      obtain rfl : calls' = [] := by simpa using hcalls.symm
      exact hq
  | cons c calls ih =>
      obtain ⟨c', calls', rfl, hc, hrest⟩ := List.map_eq_cons_iff.1 hcalls.symm
      rw [run_cons, run_cons]
      have hnext : (q.after c).shape = (q'.after c').shape := by
        rw [after_eq, after_eq]
        obtain ⟨e, h, h'⟩ | ⟨p, p', h, h', hshape⟩ :=
          cases_of_map_eq_map (shape_call hq hc.symm)
        · rw [h, h']
          exact hq
        · rw [h, h']
          exact hshape
      exact ih hnext hrest.symm

/-- A run that stops at a refused call respects shapes. -/
theorem shape_runAll {q q' : Query} {calls calls' : List Call} (hq : q.shape = q'.shape)
    (hcalls : calls.map Call.shape = calls'.map Call.shape) :
    (q.runAll calls).map shape = (q'.runAll calls').map shape := by
  induction calls generalizing q q' calls' with
  | nil =>
      obtain rfl : calls' = [] := by simpa using hcalls.symm
      exact congrArg Except.ok hq
  | cons c calls ih =>
      obtain ⟨c', calls', rfl, hc, hrest⟩ := List.map_eq_cons_iff.1 hcalls.symm
      rw [runAll, runAll]
      obtain ⟨e, h, h'⟩ | ⟨p, p', h, h', hshape⟩ :=
        cases_of_map_eq_map (shape_call hq hc.symm)
      · rw [h, h']
      · rw [h, h']
        exact ih hshape hrest.symm

/-- **The bound text does not depend on the data.** Two queries of one shape have the same
text for every engine, and bind as many values. So do the queries of two runs of calls that
differ in their data only; a run that stops at a refused call stops for the same reason. -/
theorem sql_of_shape {q q' : Query} (h : q.shape = q'.shape) (d : Dialect) :
    (q.compile d).sql = (q'.compile d).sql ∧
    (q.compile d).params.length = (q'.compile d).params.length ∧
    ∀ calls calls' : List Call, calls.map Call.shape = calls'.map Call.shape →
      ((q.run calls).compile d).sql = ((q'.run calls').compile d).sql ∧
      (q.runAll calls).map (fun p => (p.compile d).sql) =
        (q'.runAll calls').map fun p => (p.compile d).sql := by
  obtain ⟨hsql, hlength⟩ := compile_of_shape h d
  refine ⟨hsql, hlength, fun calls calls' hcalls => ⟨?_, ?_⟩⟩
  · exact (compile_of_shape (shape_run h hcalls) d).1
  · obtain ⟨e, hr, hr'⟩ | ⟨p, p', hr, hr', hshape⟩ := cases_of_map_eq_map (shape_runAll h hcalls)
    · rw [hr, hr']
    · rw [hr, hr']
      exact congrArg Except.ok (compile_of_shape hshape d).1

/-- A query with data in every clause, and in a nested query that is joined. -/
def shapedSample (v w : Value) (content pattern : String) : Query :=
  ⟨.values [[v, w]] none "m", { columns := [.raw "? + '?'" [w] false] },
    [⟨.query ⟨.table "u" none, {}, [], [.fullText "a" content true], ⟨[], []⟩, []⟩, .left, [],
      "j"⟩],
    [.anyOf [.pattern "b" pattern false {}, .inSet "c" (.values [v, w]) false]],
    ⟨["x"], [⟨.and, .comparison "COUNT(*)" .gt w false⟩]⟩, []⟩

/-- Calls with values, the last of which is refused. -/
def shapedCalls (v w : Value) : List Call :=
  [.compare .or true "d" (.token "not like") v, .inSet false "e" (.values [w, v]),
    .having .or "MAX(x)" (.known .le) w, .compare .and false "f" (.token "==") v]

theorem sql_of_shape_shapedSample :
    (shapedSample (.int 7) .null "it's" "%").shape =
        (shapedSample (.text "a' OR 1 = 1") (.bool true) "? ?x" "'").shape ∧
      (shapedCalls (.int 7) .null).map Call.shape =
        (shapedCalls (.text "\'") (.bool true)).map Call.shape ∧
      (((shapedSample (.int 7) .null "it's" "%").run (shapedCalls (.int 7) .null)).compile
          .sqlServer).sql =
        (((shapedSample (.text "a' OR 1 = 1") (.bool true) "? ?x" "'").run
          (shapedCalls (.text "\'") (.bool true))).compile .sqlServer).sql := by
  have hq : (shapedSample (.int 7) .null "it's" "%").shape =
      (shapedSample (.text "a' OR 1 = 1") (.bool true) "? ?x" "'").shape := rfl
  have hcalls : (shapedCalls (.int 7) .null).map Call.shape =
      (shapedCalls (.text "\'") (.bool true)).map Call.shape := rfl
  exact ⟨hq, hcalls, ((sql_of_shape hq .sqlServer).2.2 _ _ hcalls).1⟩

end Query

end SelectSql
