import SelectSql.Proofs.Quotes
import SelectSql.Proofs.Sequences
import SelectSql.Statement

/-!
# SelectSql.Proofs.WellFormed

What holds of every query that was built by calls. A query is **well-formed** if, at every
level of nesting,

* a join is a cross join exactly if it has no conditions, and the conditions of any other
  join are chained: the first carries no word and each later one carries one;
* a raw column comes with a value for each of its markers;
* a group of alternatives has two members at least;
* a HAVING predicate is a pattern, or a comparison whose operator is no pattern.

A call is judged before anything is changed, so what it changes is well-formed if its
arguments are (`Call.wellFormed_resolve`), and an edit keeps a query well-formed
(`Edit.wellFormed_apply`). Writing a well-formed query never finds a fragment that has
another number of markers than of values (`Query.quiet`).

Main statement: `Query.wellFormed_run`.
-/

namespace SelectSql

/-! ## Well-formed clauses -/

/-- A raw column comes with a value for each of its markers. -/
def Column.WellFormed : Column → Prop
  | .raw sql params _ => Fragment.countMarkers sql = params.length
  | _ => True

/-- The first condition of a join carries no word, each later one carries one. -/
def JoinTerm.Chained : List JoinTerm → Prop
  | [] => True
  | t :: ts => t.connective = none ∧ ∀ u ∈ ts, u.connective ≠ none

/-- The predicates of a HAVING clause: patterns, and comparisons by other operators. -/
def Predicate.TestsGroups : Predicate → Prop
  | .pattern .. => True
  | .comparison _ op _ _ => op.isPattern = false
  | _ => False

mutual

/-- What holds of a query at every level of nesting. -/
def Query.WellFormed : Query → Prop
  | ⟨source, projection, joins, conditions, grouping, _⟩ =>
    source.WellFormed ∧ (∀ c ∈ projection.columns, c.WellFormed) ∧
      Join.AllWellFormed joins ∧ Predicate.AllWellFormed conditions ∧
      ∀ e ∈ grouping.having, e.predicate.TestsGroups

/-- A nested source is well-formed. -/
def Source.WellFormed : Source → Prop
  | .query q _ => q.WellFormed
  | _ => True

/-- A nested query that is joined is well-formed. -/
def JoinTarget.WellFormed : JoinTarget → Prop
  | .table _ => True
  | .query q => q.WellFormed

/-- A cross join has no conditions, any other join has conditions that are chained. -/
def Join.WellFormed : Join → Prop
  | ⟨target, kind, conditions, _⟩ =>
    target.WellFormed ∧ (kind = .cross ↔ conditions = []) ∧ JoinTerm.Chained conditions

/-- All joins are well-formed. -/
def Join.AllWellFormed : List Join → Prop
  | [] => True
  | j :: js => j.WellFormed ∧ Join.AllWellFormed js

/-- A nested query whose rows are a set is well-formed. -/
def SetSource.WellFormed : SetSource → Prop
  | .values _ => True
  | .query q => q.WellFormed

/-- Groups of alternatives have two members at least. -/
def Predicate.WellFormed : Predicate → Prop
  | .inSet _ source _ => source.WellFormed
  | .anyOf ps => 2 ≤ ps.length ∧ Predicate.AllWellFormed ps
  | _ => True

/-- All predicates are well-formed. -/
def Predicate.AllWellFormed : List Predicate → Prop
  | [] => True
  | p :: ps => p.WellFormed ∧ Predicate.AllWellFormed ps

end

theorem Join.allWellFormed_iff {js : List Join} :
    AllWellFormed js ↔ ∀ j ∈ js, j.WellFormed := by
  induction js with
  | nil => simp [AllWellFormed]
  | cons j js ih => rw [AllWellFormed, ih, List.forall_mem_cons]

theorem Predicate.allWellFormed_iff {ps : List Predicate} :
    AllWellFormed ps ↔ ∀ p ∈ ps, p.WellFormed := by
  induction ps with
  | nil => simp [AllWellFormed]
  | cons p ps ih => rw [AllWellFormed, ih, List.forall_mem_cons]

/-- Well-formedness of a query, clause by clause. -/
theorem Query.wellFormed_iff {q : Query} :
    q.WellFormed ↔ q.source.WellFormed ∧ (∀ c ∈ q.projection.columns, c.WellFormed) ∧
      (∀ j ∈ q.joins, j.WellFormed) ∧ (∀ p ∈ q.conditions, p.WellFormed) ∧
      ∀ e ∈ q.grouping.having, e.predicate.TestsGroups := by
  rcases q with ⟨source, projection, joins, conditions, grouping, ordering⟩
  rw [WellFormed, Join.allWellFormed_iff, Predicate.allWellFormed_iff]

/-- The arguments of a call: nested queries are well-formed, and groups of alternatives have
two members at least. -/
def Call.WellFormed : Call → Prop
  | .inSet _ _ source => source.WellFormed
  | .predicate _ p => p.WellFormed
  | .join _ target _ _ => target.WellFormed
  | _ => True

/-- What an edit adds is well-formed. -/
def Edit.WellFormed : Edit → Prop
  | .addColumn c => c.WellFormed
  | .addJoin j => j.WellFormed
  | .push pushes => ∀ c ∈ pushes, c.2.WellFormed
  | .addHaving e => e.predicate.TestsGroups
  | _ => True

/-! ## Conditions -/

namespace Predicate

/-- A comparison is well-formed, whatever its operator. -/
theorem wellFormed_compare (column : String) (op : Operator) (value : Value) (negated : Bool) :
    (compare column op value negated).WellFormed := by
  cases op <;> simp [compare, WellFormed]

/-- A comparison tests groups: pattern operators become patterns. -/
theorem testsGroups_compare (column : String) (op : Operator) (value : Value) (negated : Bool) :
    (compare column op value negated).TestsGroups := by
  cases op <;> simp [compare, TestsGroups, Operator.isPattern]

theorem wellFormed_alternatives {p : Predicate} (h : p.WellFormed) :
    ∀ q ∈ p.alternatives, q.WellFormed := by
  cases p with
  | anyOf ps =>
      show ∀ q ∈ ps, q.WellFormed
      exact allWellFormed_iff.1 h.2
  | _ => simpa [alternatives] using h

/-- A predicate stands for one alternative at least. -/
theorem length_alternatives_pos {p : Predicate} (h : p.WellFormed) :
    0 < p.alternatives.length := by
  cases p with
  | anyOf ps =>
      have hlength : 2 ≤ ps.length := h.1
      show 0 < ps.length
      omega
  | _ => exact Nat.one_pos

/-- One more alternative makes a group of two members at least. -/
theorem wellFormed_orElse {p next : Predicate} (hp : p.WellFormed) (hnext : next.WellFormed) :
    (p.orElse next).WellFormed := by
  have hpos := length_alternatives_pos hp
  rw [orElse, WellFormed, allWellFormed_iff, List.length_append]
  refine ⟨Nat.succ_le_succ hpos, fun q hq => ?_⟩
  rcases List.mem_append.1 hq with hq | hq
  · exact wellFormed_alternatives hp q hq
  · exact List.mem_singleton.1 hq ▸ hnext

theorem wellFormed_push (connective : Connective) {p : Predicate} (hp : p.WellFormed)
    {ps : List Predicate} (h : ∀ q ∈ ps, q.WellFormed) :
    ∀ q ∈ push connective p ps, q.WellFormed := by
  fun_induction push connective p ps with
  | case1 => simpa using hp
  | case2 last => simpa using ⟨h last (by simp), hp⟩
  | case3 last => simpa using wellFormed_orElse (h last (by simp)) hp
  | case4 q r rest ih =>
      rw [List.forall_mem_cons] at h ⊢
      exact ⟨h.1, ih h.2⟩

theorem wellFormed_pushAll {pushes : List (Connective × Predicate)}
    (hp : ∀ c ∈ pushes, c.2.WellFormed) {ps : List Predicate} (h : ∀ q ∈ ps, q.WellFormed) :
    ∀ q ∈ pushAll pushes ps, q.WellFormed := by
  induction pushes generalizing ps with
  | nil => exact h
  | cons c pushes ih =>
      rw [List.forall_mem_cons] at hp
      exact ih hp.2 (wellFormed_push c.1 hp.1 h)

theorem wellFormed_activeAt (start stop : String) (time : Int64) :
    ∀ c ∈ activeAt start stop time, c.2.WellFormed := by
  have hcompare := wellFormed_compare
  simp [activeAt, WellFormed, hcompare]

end Predicate

/-! ## Join conditions -/

/-- Of the terms of a sequence at most the first carries no word. -/
theorem ConditionItem.Scan.chained {first : Bool} {pending : Connective}
    {items : List ConditionItem} {terms : List JoinTerm} (h : Scan first pending items terms) :
    if first then JoinTerm.Chained terms else ∀ t ∈ terms, t.connective ≠ none := by
  induction h with
  | @done first pending => cases first <;> simp [JoinTerm.Chained]
  | word hword rest ih => exact ih
  | @condition first pending item items c terms hword hcondition rest ih =>
      have hlater : ∀ t ∈ terms, t.connective ≠ none := ih
      cases first with
      | true => exact ⟨rfl, hlater⟩
      | false => exact List.forall_mem_cons.2 ⟨Option.some_ne_none pending, hlater⟩

/-- The conditions of a join are chained, and there is one at least. -/
theorem ConditionSpec.chained_resolve {on : ConditionSpec} {terms : List JoinTerm}
    (h : on.resolve = .ok terms) : JoinTerm.Chained terms ∧ terms ≠ [] := by
  cases on with
  | single left op right =>
      obtain ⟨c, -, rfl⟩ := exists_of_map_eq_ok h
      simp [JoinTerm.Chained]
  | sequence items =>
      obtain ⟨hscan, hne⟩ := scan_of_resolve_sequence h
      exact ⟨hscan.chained, hne⟩

/-! ## Steps and runs -/

/-- What is edited by a call is well-formed if its arguments are. -/
theorem Call.wellFormed_resolve {c : Call} (hc : c.WellFormed) {e : Edit}
    (h : c.resolve = .ok e) : e.WellFormed := by
  cases c with
  | selectRaw sql params =>
      obtain ⟨hmarkers, rfl⟩ := of_resolve_selectRaw h
      exact hmarkers
  | compare connective negated column op value =>
      obtain ⟨op, -, rfl⟩ := exists_of_map_eq_ok h
      simpa [Edit.WellFormed] using Predicate.wellFormed_compare column op value negated
  | compareColumns connective column op other =>
      obtain ⟨op, -, rfl⟩ := exists_of_map_eq_ok h
      simp [Edit.WellFormed, Predicate.WellFormed]
  | having connective column op value =>
      obtain ⟨op, -, rfl⟩ := exists_of_map_eq_ok h
      exact Predicate.testsGroups_compare column op value false
  | join kind target on asName =>
      obtain ⟨hkind, terms, hon, rfl⟩ := of_resolve_join h
      obtain ⟨hchained, hne⟩ := ConditionSpec.chained_resolve hon
      exact ⟨hc, iff_of_false hkind hne, hchained⟩
  | crossJoin table asName =>
      obtain rfl := Except.ok.inj h
      exact ⟨trivial, iff_of_true rfl rfl, trivial⟩
  | activeAt start stop time =>
      obtain rfl := Except.ok.inj h
      exact Predicate.wellFormed_activeAt start stop time
  | inSet negated column source =>
      obtain rfl := Except.ok.inj h
      have hsource : source.WellFormed := hc
      simpa [Edit.WellFormed, Predicate.WellFormed] using hsource
  | predicate connective p =>
      obtain rfl := Except.ok.inj h
      have hp : p.WellFormed := hc
      simpa [Edit.WellFormed] using hp
  | nullCheck | like | fullText =>
      obtain rfl := Except.ok.inj h
      simp [Edit.WellFormed, Predicate.WellFormed]
  | _ =>
      obtain rfl := Except.ok.inj h
      trivial

/-- The star has no markers. -/
theorem Column.wellFormed_star : Column.star.WellFormed := by
  show Fragment.countMarkers "*" = 0
  rw [Fragment.countMarkers, Fragment.markers_scan rfl]
  rfl

/-- An edit that adds what is well-formed keeps a query well-formed. -/
theorem Edit.wellFormed_apply {e : Edit} (he : e.WellFormed) {q : Query} (h : q.WellFormed) :
    (e.apply q).WellFormed := by
  rw [Query.wellFormed_iff] at h ⊢
  obtain ⟨hsource, hcolumns, hjoins, hconditions, hhaving⟩ := h
  cases e with
  | star =>
      refine ⟨hsource, ?_, hjoins, hconditions, hhaving⟩
      simpa [apply] using Column.wellFormed_star
  | addColumn c =>
      have hc : ∀ c' ∈ [c], c'.WellFormed := List.forall_mem_singleton.2 he
      exact ⟨hsource, List.forall_mem_append.2 ⟨hcolumns, hc⟩, hjoins, hconditions, hhaving⟩
  | addJoin j =>
      have hj : ∀ j' ∈ [j], j'.WellFormed := List.forall_mem_singleton.2 he
      exact ⟨hsource, hcolumns, List.forall_mem_append.2 ⟨hjoins, hj⟩, hconditions, hhaving⟩
  | push pushes =>
      exact ⟨hsource, hcolumns, hjoins, Predicate.wellFormed_pushAll he hconditions, hhaving⟩
  | addHaving entry =>
      have hentry : ∀ e ∈ [entry], e.predicate.TestsGroups := List.forall_mem_singleton.2 he
      exact ⟨hsource, hcolumns, hjoins, hconditions, List.forall_mem_append.2 ⟨hhaving, hentry⟩⟩
  | markDistinct | setGroups | addOrder | clearOrder =>
      exact ⟨hsource, hcolumns, hjoins, hconditions, hhaving⟩

namespace Query

theorem wellFormed_ofSource {source : Source} (h : source.WellFormed) :
    (ofSource source).WellFormed :=
  wellFormed_iff.2 ⟨h, by simp [ofSource], by simp [ofSource], by simp [ofSource],
    by simp [ofSource]⟩

/-- A call keeps a query well-formed, whether it is refused or not. -/
theorem wellFormed_after {q : Query} (h : q.WellFormed) {c : Call} (hc : c.WellFormed) :
    (q.after c).WellFormed := by
  cases hresolve : c.resolve with
  | error e =>
      rw [after_of_error hresolve]
      exact h
  | ok e =>
      rw [after_of_ok hresolve]
      exact Edit.wellFormed_apply (Call.wellFormed_resolve hc hresolve) h

/-- Calls keep a query well-formed. -/
theorem wellFormed_calls {q : Query} (h : q.WellFormed) {calls : List Call}
    (hcalls : ∀ c ∈ calls, c.WellFormed) : (q.run calls).WellFormed := by
  induction calls generalizing q with
  | nil => exact h
  | cons c calls ih =>
      rw [List.forall_mem_cons] at hcalls
      exact ih (wellFormed_after h hcalls.1) hcalls.2

end Query

/-! ## Writing -/

/-- The notice of a fragment with another number of markers than of values. -/
def Notice.isMismatch : Notice → Bool
  | .markerMismatch .. => true
  | _ => false

/-- Writing that takes no notice of a mismatch of markers and values. -/
def Quiet {α : Type} (w : Writing α) : Prop :=
  ∀ d : Draft, (∀ n ∈ d.notices, n.isMismatch = false) →
    ∀ n ∈ (w.run d).2.notices, n.isMismatch = false

namespace Quiet

theorem pure {α : Type} (a : α) : Quiet (Pure.pure a : Writing α) :=
  fun _ h => h

theorem bind {α β : Type} {w : Writing α} {f : α → Writing β} (hw : Quiet w)
    (hf : ∀ a, Quiet (f a)) : Quiet (w >>= f) :=
  fun d h => hf (w.run d).1 (w.run d).2 (hw d h)

theorem note {n : Notice} (h : n.isMismatch = false) :
    Quiet (modify (·.note n) : Writing Unit) := by
  intro d hd m hm
  rcases List.mem_append.1 hm with hm | hm
  · exact hd m hm
  · exact List.mem_singleton.1 hm ▸ h

theorem bindValue (r : Rendering) (v : Value) : Quiet (r.bind v) := by
  rcases r with ⟨dialect, mode⟩
  cases mode <;> exact fun _ h => h

theorem bindAll (r : Rendering) (vs : List Value) : Quiet (r.bindAll vs) := by
  induction vs with
  | nil => exact pure []
  | cons v vs ih => exact (bindValue r v).bind fun _ => ih.bind fun _ => pure _

theorem fill (r : Rendering) (ss : List Segment) (vs : List Value) : Quiet (r.fill ss vs) := by
  fun_induction Rendering.fill r ss vs with
  | case1 => exact pure []
  | case2 ss v vs ih => exact (bindValue r v).bind fun _ => ih.bind fun _ => pure _
  | case3 s ss vs _ ih => exact ih.bind fun _ => pure _

/-- A fragment that comes with a value for each of its markers. -/
theorem splice (r : Rendering) {sql : String} {params : List Value}
    (h : Fragment.countMarkers sql = params.length) : Quiet (r.splice sql params) := by
  rw [Rendering.splice]
  dsimp only
  split
  · next hne => exact absurd h hne
  · exact (fill r _ params).bind fun _ => pure _

end Quiet

theorem Column.quiet (r : Rendering) {c : Column} (h : c.WellFormed) : Quiet (c.write r) := by
  cases c with
  | raw sql params standalone => exact Quiet.splice r h
  | _ => exact Quiet.pure _

theorem Column.quiet_all (r : Rendering) {cs : List Column} (h : ∀ c ∈ cs, c.WellFormed) :
    Quiet (Column.writeAll r cs) := by
  induction cs with
  | nil => exact Quiet.pure []
  | cons c cs ih =>
      rw [List.forall_mem_cons] at h
      exact (Column.quiet r h.1).bind fun _ => (ih h.2).bind fun _ => Quiet.pure _

theorem Projection.quiet (r : Rendering) {p : Projection} (h : ∀ c ∈ p.columns, c.WellFormed) :
    Quiet (p.write r) := by
  rw [Projection.write]
  split
  · exact Quiet.pure _
  · exact (Column.quiet_all r h).bind fun _ => Quiet.pure _

theorem Source.quiet_rows (r : Rendering) (rows : List (List Value)) :
    Quiet (Source.writeRows r rows) := by
  induction rows with
  | nil => exact Quiet.pure []
  | cons row rows ih =>
      exact (Quiet.bindAll r row).bind fun _ => ih.bind fun _ => Quiet.pure _

/-- A predicate on groups has no nested queries. -/
theorem Predicate.TestsGroups.quiet {p : Predicate} (h : p.TestsGroups) (r : Rendering) :
    Quiet (p.write r) := by
  cases p with
  | comparison column op value negated | pattern column value negated options =>
      exact (Quiet.bindValue r _).bind fun _ => Quiet.pure _
  | _ => exact h.elim

theorem HavingEntry.quiet_chain (r : Rendering) {first : Bool} {es : List HavingEntry}
    (h : ∀ e ∈ es, e.predicate.TestsGroups) : Quiet (HavingEntry.writeChain r first es) := by
  induction es generalizing first with
  | nil => exact Quiet.pure ""
  | cons e es ih =>
      obtain ⟨connective, predicate⟩ := e
      rw [List.forall_mem_cons] at h
      rw [HavingEntry.writeChain]
      exact (h.1.quiet r).bind fun _ => (ih h.2).bind fun _ => Quiet.pure _

theorem Grouping.quiet (r : Rendering) {g : Grouping}
    (h : ∀ e ∈ g.having, e.predicate.TestsGroups) : Quiet (g.write r) := by
  rcases g with ⟨columns, having⟩
  rw [Grouping.write]
  split
  · split
    · exact (Quiet.note rfl).bind fun _ => Quiet.pure _
    · exact Quiet.pure _
  · exact (HavingEntry.quiet_chain r h).bind fun _ => Quiet.pure _

mutual

/-- Writing a well-formed query finds no mismatch of markers and values. -/
theorem Query.quiet (r : Rendering) : (q : Query) → q.WellFormed → Quiet (q.write r)
  | ⟨source, projection, joins, conditions, grouping, ordering⟩, h => by
      obtain ⟨hsource, hcolumns, hjoins, hconditions, hhaving⟩ := h
      have hs := Source.quiet r source hsource
      have hj := Join.quiet_all r joins hjoins
      have hc := Predicate.quiet_conjunction r conditions hconditions
      rw [Query.write]
      exact (Projection.quiet r hcolumns).bind fun _ => hs.bind fun _ => hj.bind fun _ =>
        hc.bind fun _ => (Grouping.quiet r hhaving).bind fun _ => Quiet.pure _

theorem Source.quiet (r : Rendering) : (s : Source) → s.WellFormed → Quiet (s.write r)
  | .table name asName, _ => Quiet.pure _
  | .values rows aliases name, _ => (Source.quiet_rows r rows).bind fun _ => Quiet.pure _
  | .query q asName, h => (Query.quiet r q h).bind fun _ => Quiet.pure _

theorem JoinTarget.quiet (r : Rendering) : (t : JoinTarget) → t.WellFormed → Quiet (t.write r)
  | .table name, _ => Quiet.pure _
  | .query q, h => (Query.quiet r q h).bind fun _ => Quiet.pure _

theorem Join.quiet (r : Rendering) : (j : Join) → j.WellFormed → Quiet (j.write r)
  | ⟨target, _, _, _⟩, h => (JoinTarget.quiet r target h.1).bind fun _ => Quiet.pure _

theorem Join.quiet_all (r : Rendering) :
    (js : List Join) → Join.AllWellFormed js → Quiet (Join.writeAll r js)
  | [], _ => Quiet.pure []
  | j :: js, h => (Join.quiet r j h.1).bind fun _ =>
      (Join.quiet_all r js h.2).bind fun _ => Quiet.pure _

theorem Predicate.quiet (r : Rendering) : (p : Predicate) → p.WellFormed → Quiet (p.write r)
  | .comparison .., _ | .fullText .., _ | .pattern .., _ =>
      (Quiet.bindValue r _).bind fun _ => Quiet.pure _
  | .columnComparison .., _ | .nullCheck .., _ => Quiet.pure _
  | .inSet _ (.values []) _, _ => Quiet.pure _
  | .inSet _ (.values (v :: vs)) _, _ =>
      (SetSource.quiet r (.values (v :: vs)) trivial).bind fun _ => Quiet.pure _
  | .inSet _ (.query q) _, h => (SetSource.quiet r (.query q) h).bind fun _ => Quiet.pure _
  | .anyOf ps, h => (Predicate.quiet_all r ps h.2).bind fun _ => Quiet.pure _

theorem SetSource.quiet (r : Rendering) : (s : SetSource) → s.WellFormed → Quiet (s.write r)
  | .values vs, _ => (Quiet.bindAll r vs).bind fun _ => Quiet.pure _
  | .query q, h => Query.quiet r q h

theorem Predicate.quiet_all (r : Rendering) :
    (ps : List Predicate) → Predicate.AllWellFormed ps → Quiet (Predicate.writeAll r ps)
  | [], _ => Quiet.pure []
  | p :: ps, h => (Predicate.quiet r p h.1).bind fun _ =>
      (Predicate.quiet_all r ps h.2).bind fun _ => Quiet.pure _

theorem Predicate.quiet_conjunction (r : Rendering) : (ps : List Predicate) →
    Predicate.AllWellFormed ps → Quiet (Predicate.writeConjunction r ps)
  | [], _ => Quiet.pure ""
  | p :: ps, h => by
      have hp := Predicate.quiet r p h.1
      have hps := Predicate.quiet_all r ps h.2
      have hgroup : ∀ alternatives, p = .anyOf alternatives →
          Quiet (Predicate.writeAll r alternatives) := by
        rintro alternatives rfl
        exact Predicate.quiet_all r alternatives h.1.2
      rw [Predicate.writeConjunction.eq_def]
      split
      · exact Quiet.pure ""
      · next alternatives heq =>
        exact (hgroup alternatives (List.cons.inj heq).1).bind fun _ => Quiet.pure _
      · next p' ps' _ heq =>
        obtain ⟨rfl, rfl⟩ := List.cons.inj heq
        exact hp.bind fun _ => hps.bind fun _ => Quiet.pure _

end

namespace Query

/-- **Every query that was built is well-formed**, whatever was called and whether it was
refused: the source is any whose nested query is well-formed, and so are the arguments of the
calls. In neither mode does writing such a query find a raw fragment whose markers and values
differ in number. -/
theorem wellFormed_run {source : Source} (hsource : source.WellFormed) {calls : List Call}
    (hcalls : ∀ c ∈ calls, c.WellFormed) :
    ((ofSource source).run calls).WellFormed ∧
    ∀ r : Rendering, ∀ n ∈ (((ofSource source).run calls).write r).notices,
      n.isMismatch = false := by
  have h := wellFormed_calls (wellFormed_ofSource hsource) hcalls
  exact ⟨h, fun r => Query.quiet r _ h {} (by simp)⟩

/-- A query that was built by calls before. -/
def builtSample : Query :=
  ⟨.table "u" none, { columns := [.raw "? || '?'" [.int 1] false] }, [],
    [.anyOf [.nullCheck "a" false, .comparison "a" .lt (.int 3) false]], ⟨[], []⟩, []⟩

/-- Calls with nested queries, some of which are refused. -/
def builtCalls : List Call :=
  [.selectRaw "? + ?" [.int 1], .selectAll, .compare .and false "b" (.token "=~") .null,
    .inSet true "c" (.query builtSample), .predicate .or (.anyOf [.nullCheck "d" true,
      .inSet "e" (.query builtSample) false]),
    .join .cross (.query builtSample) (.single "u.id" "=" "j.id") "j",
    .join .left (.query builtSample) (.sequence [.text "or", .text "u.id = j.id", .text "or",
      .triple "u.n" "<" "j.n"]) "j",
    .crossJoin "v" "w", .having .or "MAX(f)" (.token "not like") (.text "x%")]

theorem wellFormed_run_builtCalls :
    (∀ c ∈ builtCalls, c.WellFormed) ∧
    ((ofSource (.query builtSample (some "s"))).run builtCalls).WellFormed ∧
    ∀ r : Rendering,
      ∀ n ∈ (((ofSource (.query builtSample (some "s"))).run builtCalls).write r).notices,
        n.isMismatch = false := by
  have hmarkers : Fragment.countMarkers "? || '?'" = 1 := by
    rw [Fragment.countMarkers, Fragment.markers_scan rfl]
    rfl
  have hq : builtSample.WellFormed := by
    simp [builtSample, WellFormed, Source.WellFormed, Join.AllWellFormed,
      Predicate.AllWellFormed, Predicate.WellFormed, Column.WellFormed, hmarkers]
  have hcalls : ∀ c ∈ builtCalls, c.WellFormed := by
    simp [builtCalls, Call.WellFormed, SetSource.WellFormed, JoinTarget.WellFormed,
      Predicate.AllWellFormed, Predicate.WellFormed, hq]
  have hsource : (Source.query builtSample (some "s")).WellFormed := hq
  exact ⟨hcalls, wellFormed_run hsource hcalls⟩

end Query

end SelectSql
