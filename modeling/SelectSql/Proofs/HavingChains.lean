import SelectSql.Proofs.Conditions
import SelectSql.Proofs.Runs
import SelectSql.Proofs.Splicing

/-!
# SelectSql.Proofs.HavingChains

The HAVING clause that a run of calls leaves behind, and how it is read.

Design points:

* **A chain has no parentheses.** Each test but the first stands behind the word that ties it to
  the one before (`HavingTest.chainText`). Cut in front of every OR, the chain is runs of tests
  with AND between them, and OR between the runs (`HavingTest.chainText_eq`); since AND binds
  tighter, it is read like that (`Formula.read_runs`).
* **A test is firm** (`HavingTest.firm_text`): no AND or OR cuts its text, as long as none stands
  in the name of its column, and it is more than a group.
* **Texts and values go together**: the test number `i` is behind the values of the `i` tests in
  front of it (`HavingTest.run_writeChain`).

Main statement: `Query.having_of_run`.
-/

namespace SelectSql

open Formula (Uncut separated factor literal)

/-! ## Reading runs -/

namespace Formula

/-- One of some runs, of each of which all texts hold. -/
def ofRuns (runs : List (List String)) : Formula :=
  any (runs.map fun run => all (run.map literal))

theorem eval_ofRuns (truth : String → Bool) {runs : List (List String)} (hne : runs ≠ [])
    (hruns : ∀ run ∈ runs, run ≠ []) :
    (ofRuns runs).eval truth =
      runs.any fun run => run.all fun text => (literal text).eval truth := by
  rw [ofRuns, eval_any truth (by simpa using hne), List.any_map, Bool.eq_iff_iff, List.any_eq_true,
    List.any_eq_true]
  refine exists_congr fun run => and_congr_right fun hrun => ?_
  rw [Function.comp_apply, eval_all truth (by simpa using hruns run hrun), List.all_map]
  rfl

/-- **A chain without parentheses is read with AND before OR.** -/
theorem read_runs {runs : List (List String)} (hne : runs ≠ [])
    (hruns : ∀ run ∈ runs, run ≠ []) (h : ∀ run ∈ runs, ∀ text ∈ run, Firm text.toList) :
    read (" OR ".intercalate (runs.map fun run => " AND ".intercalate run)) =
      some (ofRuns runs) := by
  have hexists (text : String) (htext : Firm text.toList) :
      ∃ parts, Reads text.toList parts ∧ Uncut parts ∧ factor parts = literal text :=
    htext.exists_reads
  choose! parts hreads huncut hfactor using hexists
  have hrun : ∀ run ∈ runs,
      Reads (" AND ".intercalate run).toList (separated "AND" (run.map parts)) := by
    intro run hrun
    refine Reads.connected .and (List.forall₂_map_left_iff.2 (List.forall₂_map_right_iff.2 ?_))
    exact List.forall₂_same.2 fun text ht => hreads text (h run hrun text ht)
  have hchain : Reads (" OR ".intercalate (runs.map fun run => " AND ".intercalate run)).toList
      (separated "OR" ((runs.map (List.map parts)).map (separated "AND"))) := by
    rw [List.map_map]
    refine Reads.connected .or ?_
    rw [List.map_map]
    exact List.forall₂_map_left_iff.2 (List.forall₂_map_right_iff.2 (List.forall₂_same.2 hrun))
  have hterms : ∀ term ∈ runs.map (List.map parts), term ≠ [] := by
    simpa using hruns
  have huncuts : ∀ term ∈ runs.map (List.map parts), ∀ ps ∈ term, Uncut ps := by
    intro term hterm ps hps
    obtain ⟨run, hrun, rfl⟩ := List.mem_map.1 hterm
    obtain ⟨text, ht, rfl⟩ := List.mem_map.1 hps
    exact huncut text (h run hrun text ht)
  rw [hchain.read_eq, combine_separated (by simpa using hne) hterms huncuts, List.map_map]
  refine congrArg (fun fs => some (any fs)) (List.map_congr_left fun run hrun => ?_)
  show all ((run.map parts).map factor) = all (run.map literal)
  rw [List.map_map]
  exact congrArg all (List.map_congr_left fun text ht => hfactor text (h run hrun text ht))

end Formula

/-! ## Tests -/

/-- A test of groups: a column compared with a value, and the word that ties it to the test
before. -/
structure HavingTest where
  connective : Connective
  column : String
  op : Operator
  value : Value

/-- The test that a call adds. -/
def Call.test? : Call → Option HavingTest
  | .having connective column op value =>
    op.resolve.toOption.map fun op => ⟨connective, column, op, value⟩
  | _ => none

/-- The columns that a call groups by. -/
def Call.groups? : Call → Option (List String)
  | .groupBy columns => some columns
  | _ => none

namespace HavingTest

/-- The predicate of a test. -/
def predicate (t : HavingTest) : Predicate :=
  Predicate.compare t.column t.op t.value false

/-- The entry that a test becomes. -/
def entry (t : HavingTest) : HavingEntry :=
  ⟨t.connective, t.predicate⟩

/-- The value that a test binds: of a pattern its text. -/
def param (t : HavingTest) : Value :=
  if t.op.isPattern then .text t.value.plainText else t.value

/-- The text of a test, given that of its value. -/
def text (dialect : Dialect) (t : HavingTest) (value : String) : String :=
  match t.op with
  | .like => dialect.like t.column value {} false
  | .notLike => dialect.like t.column value {} true
  | .ilike => dialect.like t.column value { caseSensitive := false } false
  | .notIlike => dialect.like t.column value { caseSensitive := false } true
  | op => t.column ++ " " ++ op.symbol ++ " " ++ value

/-- Tests with their words, each written behind the values of those in front of it, and behind
`k` others. -/
def written (r : Rendering) (k : Nat) (tests : List HavingTest) : List (Connective × String) :=
  tests.mapIdx fun i t => (t.connective, t.text r.dialect (String.ofList (r.slot (k + i) t.param)))

variable {r : Rendering} {d : Draft} {k : Nat}

theorem written_cons (r : Rendering) (k : Nat) (t : HavingTest) (tests : List HavingTest) :
    written r k (t :: tests) =
      (t.connective, t.text r.dialect (String.ofList (r.slot k t.param))) ::
        written r (k + 1) tests := by
  simp [written, Nat.add_assoc, Nat.add_comm 1]

theorem isAnyOf_predicate (t : HavingTest) : t.predicate.isAnyOf = false := by
  obtain ⟨connective, column, op, value⟩ := t
  cases op <;> rfl

/-- A test writes its value, and its text around it. -/
theorem write_predicate (r : Rendering) (t : HavingTest) :
    t.predicate.write r = do return t.text r.dialect (← r.bind t.param) := by
  obtain ⟨connective, column, op, value⟩ := t
  cases op <;> simp [predicate, Predicate.compare, Predicate.write, Predicate.not, text, param,
    Operator.isPattern]

theorem run_write (hk : r.Numbered d k) (t : HavingTest) :
    (t.predicate.write r).run d =
      (t.text r.dialect (String.ofList (r.slot k t.param)),
        { d with bound := d.bound ++ r.recorded [t.param] }) := by
  rw [write_predicate, Writing.run_bind, Rendering.run_bind hk, Writing.run_pure]

/-- **The text of a test is an atom**, wherever its value is numbered. -/
theorem firm_text (r : Rendering) (k : Nat) {t : HavingTest} (h : UncutText t.column) :
    Firm (t.text r.dialect (String.ofList (r.slot k t.param))).toList := by
  -- any draft with `k` values shows the text
  let d : Draft := { bound := List.replicate k .null }
  have hk : r.Numbered d k := fun _ => List.length_replicate
  have hleaves : ∀ l ∈ t.predicate.leaves, l.Uncut := by
    obtain ⟨connective, column, op, value⟩ := t
    have hcolumn : Leaf.Uncut (.text column) := h
    have hvalue (v : Value) : Leaf.Uncut (.value v) := trivial
    have hescape : Leaf.Uncut (.escape '\\') := by
      show '\\' ≠ '\''
      decide
    cases op <;> simp [predicate, Predicate.compare, Predicate.leaves, hcolumn, hvalue, hescape]
  have hfirm := t.predicate.firm_write r t.isAnyOf_predicate hleaves d
  rwa [run_write hk] at hfirm

/-! ## Chains -/

/-- The text of a chain, each of its texts behind its word. -/
def chainText : List (Connective × String) → String
  | [] => ""
  | (connective, text) :: entries => " " ++ connective.keyword ++ " " ++ text ++ chainText entries

/-- The texts of a chain, cut in front of every OR. The word of the first one ties it to
nothing. -/
def runs (entries : List (Connective × String)) : List (List String) :=
  (entries.splitBy fun _ e => e.1 = .and).map (·.map Prod.snd)

theorem chainText_append (entries entries' : List (Connective × String)) :
    chainText (entries ++ entries') = chainText entries ++ chainText entries' := by
  induction entries with
  | nil => simp [chainText]
  | cons e entries ih => simp [chainText, ih, String.append_assoc]

/-- Behind a text, tests that are tied by AND. -/
theorem chainText_ands {ands : List (Connective × String)} (h : ∀ e ∈ ands, e.1 = .and)
    (text : String) :
    text ++ chainText ands = " AND ".intercalate (text :: ands.map Prod.snd) := by
  induction ands generalizing text with
  | nil => simp [chainText]
  | cons e ands ih =>
      obtain ⟨connective, next⟩ := e
      obtain ⟨rfl, hands⟩ := List.forall_mem_cons.1 h
      rw [List.map_cons, String.intercalate_cons_cons, ← ih hands, chainText]
      simp [Connective.keyword, String.append_assoc]

/-- Runs one behind the other, of which all but the first begin with an OR. -/
theorem chainText_flatten {runs : List (List (Connective × String))}
    (hands : ∀ run ∈ runs, run ≠ [] ∧ ∀ e ∈ run.tail, e.1 = .and)
    (hors : ∀ run ∈ runs.tail, ∀ e ∈ run.head?, e.1 = .or) {first : Connective × String}
    {rest : List (Connective × String)} (h : runs.flatten = first :: rest) :
    first.2 ++ chainText rest =
      " OR ".intercalate (runs.map fun run => " AND ".intercalate (run.map Prod.snd)) := by
  induction runs generalizing first rest with
  | nil => simp at h
  | cons run runs ih =>
      obtain ⟨hne, htail⟩ := hands run (by simp)
      obtain ⟨e, ands, rfl⟩ := List.exists_cons_of_ne_nil hne
      have hrun : ∀ e ∈ ands, e.1 = .and := htail
      obtain ⟨rfl, rfl⟩ : e = first ∧ ands ++ runs.flatten = rest := by simpa using h
      rw [chainText_append, ← String.append_assoc, chainText_ands hrun]
      cases runs with
      | nil => simp [chainText]
      | cons next runs =>
          obtain ⟨hnext, -⟩ := hands next (by simp)
          obtain ⟨⟨connective, text⟩, nextAnds, rfl⟩ := List.exists_cons_of_ne_nil hnext
          obtain rfl : connective = .or := hors _ List.mem_cons_self _ rfl
          have hflat : (((Connective.or, text) :: nextAnds) :: runs).flatten =
              (.or, text) :: (nextAnds ++ runs.flatten) := rfl
          have hrest := ih (fun run hrun => hands run (by simp [hrun]))
            (fun run hrun => hors run (List.mem_of_mem_tail hrun)) hflat
          calc " AND ".intercalate (e.2 :: ands.map Prod.snd) ++
                chainText (((.or, text) :: nextAnds) :: runs).flatten
              = " AND ".intercalate (e.2 :: ands.map Prod.snd) ++ " OR " ++
                  (text ++ chainText (nextAnds ++ runs.flatten)) := by
                rw [hflat, chainText]
                simp [Connective.keyword, String.append_assoc]
            _ = _ := by
                rw [hrest]
                exact String.intercalate_cons_cons.symm

/-- **A chain is its runs with OR between them**, and a run its texts with AND between them. -/
theorem chainText_eq (first : Connective × String) (rest : List (Connective × String)) :
    first.2 ++ chainText rest =
      " OR ".intercalate ((runs (first :: rest)).map fun run => " AND ".intercalate run) := by
  let joins (e : Connective × String) : Bool := e.1 = .and
  have hands : ∀ run ∈ (first :: rest).splitBy fun _ e => joins e,
      run ≠ [] ∧ ∀ e ∈ run.tail, e.1 = .and := fun run hrun =>
    ⟨List.ne_nil_of_mem_splitBy hrun, fun e he => of_decide_eq_true (joins_of_mem_tail hrun e he)⟩
  have hors : ∀ run ∈ ((first :: rest).splitBy fun _ e => joins e).tail,
      ∀ e ∈ run.head?, e.1 = .or := by
    rintro run hrun ⟨connective, text⟩ he
    cases connective with
    | or => rfl
    | and => exact absurd rfl (of_decide_eq_false (not_joins_of_mem_head? run hrun _ he))
  rw [chainText_flatten hands hors (List.flatten_splitBy _ _), runs, List.map_map]
  rfl

theorem runs_ne_nil (first : Connective × String) (rest : List (Connective × String)) :
    runs (first :: rest) ≠ [] := by
  simp [runs]

theorem ne_nil_of_mem_runs {entries : List (Connective × String)} {run : List String}
    (h : run ∈ runs entries) : run ≠ [] := by
  obtain ⟨run, hrun, rfl⟩ := List.mem_map.1 h
  simpa using List.ne_nil_of_mem_splitBy hrun

/-- The texts of the runs are those of the chain, in order. -/
theorem flatten_runs (entries : List (Connective × String)) :
    (runs entries).flatten = entries.map Prod.snd := by
  rw [runs, ← List.map_flatten, List.flatten_splitBy]

/-- A test in a chain: its word, or the keyword in front of the first one. -/
theorem run_writeChain_cons (hk : r.Numbered d k) (first : Bool) (t : HavingTest)
    (entries : List HavingEntry) :
    (HavingEntry.writeChain r first (t.entry :: entries)).run d =
      let rest := (HavingEntry.writeChain r false entries).run
        { d with bound := d.bound ++ r.recorded [t.param] }
      (" " ++ (if first then "HAVING" else t.connective.keyword) ++ " " ++
        t.text r.dialect (String.ofList (r.slot k t.param)) ++ rest.1, rest.2) := by
  rw [entry, HavingEntry.writeChain, Writing.run_bind, run_write hk]
  rfl

/-- **A chain behind a test** writes the texts of its tests behind their words, and records the
values of the tests in order. -/
theorem run_writeChain (hk : r.Numbered d k) (tests : List HavingTest) :
    (HavingEntry.writeChain r false (tests.map entry)).run d =
      (chainText (written r k tests),
        { d with bound := d.bound ++ r.recorded (tests.map param) }) := by
  induction tests generalizing d k with
  | nil =>
      rw [List.map_nil, List.map_nil, HavingEntry.writeChain, Rendering.recorded_nil,
        List.append_nil]
      rfl
  | cons t tests ih =>
      rw [List.map_cons, run_writeChain_cons hk, ih (hk.next t.param), written_cons, chainText,
        List.map_cons, Rendering.recorded_cons t.param (tests.map param), List.append_assoc]
      rfl

/-- **A chain behind the keyword** is its runs with OR between them, and records the values of the
tests in order. -/
theorem run_chain (hk : r.Numbered d k) (t : HavingTest) (tests : List HavingTest) :
    (HavingEntry.writeChain r true ((t :: tests).map entry)).run d =
      (" HAVING " ++ " OR ".intercalate
          ((runs (written r k (t :: tests))).map fun run => " AND ".intercalate run),
        { d with bound := d.bound ++ r.recorded ((t :: tests).map param) }) := by
  have hword : " HAVING " = " " ++ "HAVING" ++ " " := rfl
  rw [List.map_cons, List.map_cons, run_writeChain_cons hk, run_writeChain (hk.next t.param),
    written_cons, ← chainText_eq, Rendering.recorded_cons t.param (tests.map param),
    ← List.append_assoc, hword]
  simp only [if_true, String.append_assoc]

/-- The texts of the runs of tests are firm. -/
theorem firm_of_mem_runs (r : Rendering) {tests : List HavingTest}
    (h : ∀ t ∈ tests, UncutText t.column) (k : Nat) :
    ∀ run ∈ runs (written r k tests), ∀ text ∈ run, Firm text.toList := by
  intro run hrun text htext
  have hmem : text ∈ (written r k tests).map Prod.snd := by
    rw [← flatten_runs]
    exact List.mem_flatten_of_mem hrun htext
  obtain ⟨_, he, rfl⟩ := List.mem_map.1 hmem
  obtain ⟨i, hi, rfl⟩ := List.mem_mapIdx.1 he
  exact firm_text r (k + i) (h _ (List.getElem_mem hi))

end HavingTest

/-! ## Grouping clauses -/

namespace Grouping

variable {r : Rendering} {d : Draft}

/-- Without columns there is no text, and no value is bound. -/
theorem run_write_nil (r : Rendering) (having : List HavingEntry) (d : Draft) :
    (((⟨[], having⟩ : Grouping).write r).run d).1 = "" ∧
      (((⟨[], having⟩ : Grouping).write r).run d).2.bound = d.bound := by
  rw [write]
  cases having <;> exact ⟨rfl, rfl⟩

theorem run_write {columns : List String} (hne : columns ≠ []) (having : List HavingEntry) :
    ((⟨columns, having⟩ : Grouping).write r).run d =
      let chain := (HavingEntry.writeChain r true having).run d
      ("GROUP BY " ++ ", ".intercalate columns ++ chain.1, chain.2) := by
  rw [write, if_neg (by simpa using hne)]
  rfl

/-- The word of the first entry is not written. -/
theorem write_first (r : Rendering) (columns : List String) (c c' : Connective) (p : Predicate)
    (having : List HavingEntry) :
    (⟨columns, ⟨c, p⟩ :: having⟩ : Grouping).write r =
      (⟨columns, ⟨c', p⟩ :: having⟩ : Grouping).write r := by
  rw [write, write, HavingEntry.writeChain, HavingEntry.writeChain]
  rfl

end Grouping

/-! ## Runs of calls -/

/-- A call about another clause has no edit of this one. -/
theorem Call.bind_resolve_eq_none {α : Type} {f : Edit → Option α} {k : Clause}
    (hf : ∀ e : Edit, e.clause ≠ k → f e = none) {c : Call} (hc : c.clause ≠ k) :
    c.resolve.toOption.bind f = none := by
  cases h : c.resolve with
  | error e => rfl
  | ok e => exact hf e (clause_resolve h ▸ hc)

/-- What is read off the edit of a call about groups is read off the call. -/
theorem Call.bind_grouping (c : Call) :
    c.resolve.toOption.bind Edit.groups? = c.groups? ∧
      c.resolve.toOption.bind Edit.having? = c.test?.map HavingTest.entry := by
  have hother : ∀ e : Edit, e.clause ≠ .grouping → e.groups? = none ∧ e.having? = none := by
    intro e he
    cases e <;> first | exact ⟨rfl, rfl⟩ | exact absurd rfl he
  cases c with
  | groupBy columns => exact ⟨rfl, rfl⟩
  | having connective column op value =>
      rw [resolve, test?]
      cases op.resolve <;> exact ⟨rfl, rfl⟩
  | _ =>
      exact ⟨bind_resolve_eq_none (fun e he => (hother e he).1) (by simp [clause]),
        bind_resolve_eq_none (fun e he => (hother e he).2) (by simp [clause])⟩

namespace Query

/-- **The groups that a run leaves behind** are the last columns and all accepted tests. -/
theorem grouping_run (source : Source) (calls : List Call) :
    ((ofSource source).run calls).grouping =
      ⟨(calls.filterMap Call.groups?).getLast?.getD [],
        (calls.filterMap Call.test?).map HavingTest.entry⟩ := by
  have hgroups : (Call.edits calls).filterMap Edit.groups? = calls.filterMap Call.groups? := by
    rw [Call.edits, List.filterMap_filterMap]
    exact List.filterMap_congr fun c _ => c.bind_grouping.1
  have hhaving : (Call.edits calls).filterMap Edit.having? =
      (calls.filterMap Call.test?).map HavingTest.entry := by
    rw [Call.edits, List.filterMap_filterMap, List.map_filterMap]
    exact List.filterMap_congr fun c _ => c.bind_grouping.2
  rw [run_eq, editAll_ofSource, ofEdits, hgroups, hhaving]

/-- The word of the first accepted test has no effect. -/
theorem write_grouping_first (source : Source) {before : List Call}
    (hbefore : before.filterMap Call.test? = []) (after : List Call) (c c' : Connective)
    (column : String) (op : OperatorArg) (value : Value) (r : Rendering) :
    ((ofSource source).run (before ++ .having c column op value :: after)).grouping.write r =
      ((ofSource source).run (before ++ .having c' column op value :: after)).grouping.write r := by
  have hgroups (c : Connective) : (Call.having c column op value).groups? = none := rfl
  rw [grouping_run, grouping_run]
  simp only [List.filterMap_append, List.filterMap_cons, hgroups, hbefore, List.nil_append]
  cases hop : op.resolve with
  | error e => simp [Call.test?, hop, Except.toOption]
  | ok op =>
      simp only [Call.test?, hop, Except.toOption, Option.map_some, List.map_cons]
      exact Grouping.write_first r _ c c' _ _

/-- **A HAVING clause is a flat chain.** After any calls, for any engine and in either mode, and if
no column that is tested holds quotes, AND or OR, or parentheses that are not well nested:

* Without columns in the last grouping there is no text, and no value is bound.
* With columns the values of the accepted tests are bound in order, and the text behind HAVING is
  read as one of the runs that are left when the tests are cut in front of every OR, of each of
  which all tests hold. Each test is written behind the values of those in front of it.
* The word of the first test has no effect. -/
theorem having_of_run (source : Source) (calls : List Call) (r : Rendering) (d : Draft)
    (h : ∀ t ∈ calls.filterMap Call.test?, UncutText t.column) :
    let columns := (calls.filterMap Call.groups?).getLast?.getD []
    let tests := calls.filterMap Call.test?
    let written := (((ofSource source).run calls).grouping.write r).run d
    (columns = [] → written.1 = "" ∧ written.2.bound = d.bound) ∧
    (columns ≠ [] →
      written.2.bound = d.bound ++ r.recorded (tests.map HavingTest.param) ∧
      (tests = [] → written.1 = "GROUP BY " ++ ", ".intercalate columns) ∧
      (tests ≠ [] →
        let runs := HavingTest.runs (HavingTest.written r d.bound.length tests)
        ∃ having, written.1 = "GROUP BY " ++ ", ".intercalate columns ++ " HAVING " ++ having ∧
          Formula.read having = some (Formula.ofRuns runs) ∧
          ∀ truth, (Formula.ofRuns runs).eval truth =
            runs.any fun run => run.all fun text => (literal text).eval truth)) ∧
    ∀ before c c' column op value after,
      calls = before ++ .having c column op value :: after → before.filterMap Call.test? = [] →
      ((ofSource source).run (before ++ .having c' column op value :: after)).grouping.write r =
        ((ofSource source).run calls).grouping.write r := by
  intro columns tests written
  have hwritten : written = ((⟨columns, tests.map HavingTest.entry⟩ : Grouping).write r).run d := by
    show ((((ofSource source).run calls).grouping.write r).run d) = _
    rw [grouping_run]
  refine ⟨fun hnone => ?_, fun hcolumns => ?_, ?_⟩
  · rw [hwritten, hnone]
    exact Grouping.run_write_nil r _ d
  · have hd : r.Numbered d d.bound.length := fun _ => rfl
    rw [hwritten, Grouping.run_write hcolumns]
    cases htests : tests with
    | nil =>
        rw [List.map_nil, List.map_nil, HavingEntry.writeChain, Rendering.recorded_nil]
        exact ⟨(List.append_nil _).symm, fun _ => String.append_empty, fun hne => absurd rfl hne⟩
    | cons t rest =>
        have htested : ∀ u ∈ t :: rest, UncutText u.column := htests ▸ h
        have hfirm := HavingTest.firm_of_mem_runs r htested d.bound.length
        have hne : HavingTest.runs (HavingTest.written r d.bound.length (t :: rest)) ≠ [] := by
          rw [HavingTest.written_cons]
          exact HavingTest.runs_ne_nil _ _
        have hruns : ∀ run ∈ HavingTest.runs (HavingTest.written r d.bound.length (t :: rest)),
            run ≠ [] := fun _ => HavingTest.ne_nil_of_mem_runs
        rw [HavingTest.run_chain hd]
        refine ⟨rfl, fun hnil => absurd hnil (List.cons_ne_nil t rest), fun _ => ?_⟩
        exact ⟨_, String.append_assoc.symm, Formula.read_runs hne hruns hfirm,
          fun truth => Formula.eval_ofRuns truth hne hruns⟩
  · rintro before c c' column op value after rfl hbefore
    exact write_grouping_first source hbefore after c' c column op value r

/-- Tests around two groupings; one of them is refused, and one has a NOT in front of its
column. -/
def chainCalls : List Call :=
  [.having .or "COUNT(id)" (.token ">") (.int 5), .groupBy ["a"],
    .having .or "b" (.token "=~") .null, .having .and "MAX(b)" (.known .lt) (.int 9),
    .having .or "NOT c" (.token "like") (.text "x OR y%"), .having .and "d" (.token "!=") .null,
    .groupBy ["a", "b"]]

theorem having_of_run_chainCalls :
    (∀ t ∈ chainCalls.filterMap Call.test?, UncutText t.column) ∧
    ∃ having, ((((ofSource (.table "t" none)).run chainCalls).grouping.write
        ⟨.postgres, .bound⟩).run {}).1 = "GROUP BY a, b HAVING " ++ having ∧
      Formula.read having = some (Formula.ofRuns
        [["COUNT(id) > $1", "MAX(b) < $2"], ["NOT c LIKE $3 ESCAPE '\\'", "d <> $4"]]) := by
  have h : ∀ t ∈ chainCalls.filterMap Call.test?, UncutText t.column := by decide +kernel
  have hruns : HavingTest.runs (HavingTest.written ⟨.postgres, .bound⟩ 0
      (chainCalls.filterMap Call.test?)) =
        [["COUNT(id) > $1", "MAX(b) < $2"], ["NOT c LIKE $3 ESCAPE '\\'", "d <> $4"]] := by
    decide +kernel
  have hcolumns : (chainCalls.filterMap Call.groups?).getLast?.getD [] ≠ [] := by decide +kernel
  have htests : chainCalls.filterMap Call.test? ≠ [] := by decide +kernel
  obtain ⟨-, hchain, -⟩ := having_of_run (.table "t" none) chainCalls ⟨.postgres, .bound⟩ {} h
  obtain ⟨having, htext, hread, -⟩ := (hchain hcolumns).2.2 htests
  exact ⟨h, having, htext, hruns ▸ hread⟩

end Query

end SelectSql
