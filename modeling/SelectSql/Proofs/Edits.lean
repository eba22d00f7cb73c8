import SelectSql.Query.Call

/-!
# SelectSql.Proofs.Edits

What the work of a call comes to. The arguments alone decide whether a call is refused, and if
it is not, which **edit** of one clause it is (`Call.resolve`). The work of the call is then this
edit of the query that it finds, or the error and nothing at all (`Call.does_perform`).

Design points:

* **Every step of the work has its edit** (`Building.Does`). Where an argument is judged before
  a step, an error of the argument is that of the call (`Building.Does.judged`), as nothing was
  added yet.
* **Nothing else is known of the work.** What follows for one call and for a run of calls is
  stated by edits (`Query.call_eq`, `Query.after_eq`).
-/

namespace SelectSql

/-! ## Edits -/

/-- What an accepted call does to a clause. -/
inductive Edit
  /-- Replaces the columns by the star. -/
  | star
  | addColumn (c : Column)
  | markDistinct
  | addJoin (j : Join)
  | push (pushes : List (Connective × Predicate))
  | setGroups (columns : List String)
  | addHaving (entry : HavingEntry)
  | addOrder (terms : List OrderTerm)
  | clearOrder

/-- The query with its clause changed. -/
def Edit.apply (e : Edit) (q : Query) : Query :=
  match e with
  | .star => { q with projection := { q.projection with columns := [Column.star] } }
  | .addColumn c =>
    { q with projection := { q.projection with columns := q.projection.columns ++ [c] } }
  | .markDistinct => { q with projection := { q.projection with distinct := true } }
  | .addJoin j => { q with joins := q.joins ++ [j] }
  | .push pushes => { q with conditions := Predicate.pushAll pushes q.conditions }
  | .setGroups columns => { q with grouping := { q.grouping with columns := columns } }
  | .addHaving entry =>
    { q with grouping := { q.grouping with having := q.grouping.having ++ [entry] } }
  | .addOrder terms => { q with ordering := q.ordering ++ terms }
  | .clearOrder => { q with ordering := [] }

/-- The edit that a call stands for, or why it is refused. -/
def Call.resolve : Call → Except QueryError Edit
  | .selectAll => .ok .star
  | .select name => .ok (.addColumn (.named name none none))
  | .selectAs name asName => .ok (.addColumn (.named name none (some asName)))
  | .selectColumn table name asName => .ok (.addColumn (.named name (some table) asName))
  | .selectRaw sql params =>
    let markers := Fragment.countMarkers sql
    if markers = params.length then .ok (.addColumn (.raw sql params false))
    else .error (.paramMismatch markers params.length)
  | .selectCount operand asName =>
    .ok (.addColumn (.aggregate .count (operand.getD "1") asName))
  | .selectAggregate function name asName => .ok (.addColumn (.aggregate function name asName))
  | .distinct => .ok .markDistinct
  | .compare connective negated column op value =>
    op.resolve.map fun op => .push [(connective, Predicate.compare column op value negated)]
  | .compareColumns connective column op other =>
    op.resolve.map fun op => .push [(connective, .columnComparison column op other false)]
  | .nullCheck connective negated column => .ok (.push [(connective, .nullCheck column negated)])
  | .inSet negated column source => .ok (.push [(.and, .inSet column source negated)])
  | .like column value options negated =>
    .ok (.push [(.and, .pattern column value negated options)])
  | .fullText negated column value => .ok (.push [(.and, .fullText column value negated)])
  | .activeAt start stop time => .ok (.push (Predicate.activeAt start stop time))
  | .predicate connective p => .ok (.push [(connective, p)])
  | .join kind target on asName =>
    if kind = .cross then .error target.crossJoinError
    else on.resolve.map fun terms => .addJoin ⟨target, kind, terms, asName⟩
  | .crossJoin table asName => .ok (.addJoin ⟨.table table, .cross, [], asName⟩)
  | .groupBy columns => .ok (.setGroups columns)
  | .having connective column op value =>
    op.resolve.map fun op => .addHaving ⟨connective, Predicate.compare column op value false⟩
  | .order ascending columns => .ok (.addOrder (columns.map (⟨·, ascending⟩)))
  | .clearOrder => .ok .clearOrder

/-! ## Steps of the work -/

namespace Building

/-- Work that comes to what was judged beforehand: the edit of whatever query it finds, with
more reported perhaps, or the error with everything as it was. -/
def Does (w : Building Unit) : Except QueryError Edit → Prop
  | .ok e => ∀ b, ∃ notices,
      StateT.run w.run b = (.ok (), ⟨e.apply b.query, b.notices ++ notices⟩)
  | .error err => ∀ b, StateT.run w.run b = (.error err, b)

/-- A change of the query reports nothing. -/
theorem does_edit {f : Query → Query} {e : Edit} (h : ∀ q, f q = e.apply q) :
    (edit f).Does (.ok e) := by
  intro b
  have hrun : StateT.run (edit f).run b = (.ok (), ⟨f b.query, b.notices⟩) := rfl
  exact ⟨[], by rw [hrun, h, List.append_nil]⟩

theorem does_addColumn (c : Column) : (addColumn c).Does (.ok (.addColumn c)) :=
  does_edit fun _ => rfl

theorem does_addJoin (j : Join) : (addJoin j).Does (.ok (.addJoin j)) :=
  does_edit fun _ => rfl

theorem does_addHaving (entry : HavingEntry) : (addHaving entry).Does (.ok (.addHaving entry)) :=
  does_edit fun _ => rfl

theorem does_push (connective : Connective) (p : Predicate) :
    (push connective p).Does (.ok (.push [(connective, p)])) :=
  fun _ => ⟨_, rfl⟩

theorem does_pushAll (pushes : List (Connective × Predicate)) :
    (pushAll pushes).Does (.ok (.push pushes)) := by
  induction pushes with
  | nil =>
      -- queries are nested in one another, so a query equals its fields only when taken apart
      rintro ⟨⟨source, projection, joins, conditions, grouping, ordering⟩, notices⟩
      exact ⟨[], by rw [List.append_nil]; rfl⟩
  | cons c pushes ih =>
      intro b
      obtain ⟨notices, hrest⟩ := ih (StateT.run (push c.1 c.2).run b).2
      refine ⟨Predicate.pushNotices c.1 b.query.conditions ++ notices, ?_⟩
      rw [← List.append_assoc]
      exact hrest

/-- An argument that is judged before anything is done. -/
theorem Does.judged {α : Type} {x : Except QueryError α} {f : α → Building Unit} {g : α → Edit}
    (h : ∀ a, (f a).Does (.ok (g a))) : (liftM x >>= f : Building Unit).Does (x.map g) := by
  cases x with
  | error e => exact fun _ => rfl
  | ok a => exact h a

theorem does_selectRaw (sql : String) (params : List Value) :
    (selectRaw sql params).Does (Call.selectRaw sql params).resolve := by
  rw [selectRaw, Call.resolve]
  dsimp only
  by_cases h : Fragment.countMarkers sql = params.length
  · rw [if_pos h, if_neg fun hne => hne h]
    exact does_addColumn _
  · rw [if_neg h, if_pos h]
    exact fun _ => rfl

theorem does_join (kind : JoinKind) (target : JoinTarget) (on : ConditionSpec) (asName : String) :
    (join kind target on asName).Does (Call.join kind target on asName).resolve := by
  rw [join, Call.resolve]
  by_cases h : kind = .cross
  · rw [if_pos h, if_pos h]
    exact fun _ => rfl
  · rw [if_neg h, if_neg h]
    exact Does.judged fun terms => does_addJoin ⟨target, kind, terms, asName⟩

end Building

/-- **A call does what its arguments stand for.** -/
theorem Call.does_perform (c : Call) : c.perform.Does c.resolve := by
  cases c with
  | selectRaw sql params => exact Building.does_selectRaw sql params
  | compare connective negated column op value =>
      exact Building.Does.judged fun op => Building.does_push connective _
  | compareColumns connective column op other =>
      exact Building.Does.judged fun op => Building.does_push connective _
  | having connective column op value =>
      exact Building.Does.judged fun op => Building.does_addHaving _
  | join kind target on asName => exact Building.does_join kind target on asName
  | activeAt start stop time => exact Building.does_pushAll _
  | nullCheck | inSet | like | fullText | predicate => exact Building.does_push _ _
  | select | selectAs | selectColumn | selectCount | selectAggregate =>
      exact Building.does_addColumn _
  | crossJoin => exact Building.does_addJoin _
  | selectAll | distinct | groupBy | order | clearOrder =>
      rw [perform, resolve]
      exact Building.does_edit fun _ => rfl

/-! ## Calls and runs -/

namespace Query

variable {c : Call} {e : Edit} {err : QueryError}

theorem exists_build (h : c.resolve = .ok e) (q : Query) :
    ∃ notices, q.build c = (.ok (), ⟨e.apply q, notices⟩) := by
  have hdoes := c.does_perform
  rw [h] at hdoes
  exact hdoes { query := q }

/-- A call that is refused has done nothing, and reports nothing. -/
theorem build_of_error (h : c.resolve = .error err) (q : Query) :
    q.build c = (.error err, { query := q }) := by
  have hdoes := c.does_perform
  rw [h] at hdoes
  exact hdoes { query := q }

/-- An accepted call leaves its edit behind. -/
theorem after_of_ok (h : c.resolve = .ok e) (q : Query) : q.after c = e.apply q := by
  obtain ⟨notices, hbuild⟩ := exists_build h q
  rw [after, hbuild]

/-- **A refused call changes nothing.** -/
theorem after_of_error (h : c.resolve = .error err) (q : Query) : q.after c = q := by
  rw [after, build_of_error h]

/-- **A call returns its edit of the query**, or the error of its arguments. -/
theorem call_eq (q : Query) (c : Call) : q.call c = c.resolve.map fun e => e.apply q := by
  cases h : c.resolve with
  | error err =>
      rw [call, build_of_error h]
      rfl
  | ok e =>
      obtain ⟨notices, hbuild⟩ := exists_build h q
      rw [call, after_of_ok h, hbuild]
      rfl

/-- What a call leaves behind is what it returns, or the query as it was if it is refused. -/
theorem after_eq (q : Query) (c : Call) : q.after c = (q.call c).toOption.getD q := by
  rw [call_eq]
  cases h : c.resolve with
  | error err => exact after_of_error h q
  | ok e => exact after_of_ok h q

@[simp] theorem run_nil (q : Query) : q.run [] = q := rfl

theorem run_cons (q : Query) (c : Call) (calls : List Call) :
    q.run (c :: calls) = (q.after c).run calls := rfl

end Query

end SelectSql
