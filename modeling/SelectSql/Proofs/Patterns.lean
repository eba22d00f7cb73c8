import SelectSql.Proofs.Keywords
import SelectSql.Proofs.Runs
import SelectSql.Proofs.Tables

/-!
# SelectSql.Proofs.Patterns

Which statements match a pattern by the word ILIKE. Postgres writes it for every match that
ignores the case; the other engines have expressions of their own, and write it only where an
operator is written as it is.

Design points:

* **An operator is written as it is** in a comparison of two columns, in an ON clause and in a
  comparison that was made without a look at its operator (`Predicate.writesIlike`). The
  comparisons that calls make with values turn it into a pattern match.
* **A call adds what it writes, whatever stands there already**
  (`Query.SilentHaving.writesIlike_apply`), so what a run of calls writes is read off the calls
  one by one.

Main statement: `Query.hasIlike_run_iff`.
-/

namespace SelectSql

/-! ## Operators that are written as they are -/

/-- Whether an operator ignores the case. -/
def Operator.isIlike : Operator → Bool
  | .ilike | .notIlike => true
  | _ => false

/-- Whether a term of an ON clause has such an operator. -/
def JoinTerm.writesIlike (t : JoinTerm) : Bool :=
  t.condition.op.isIlike

mutual

/-- Whether ILIKE is written for a query, other than for a pattern match. -/
def Query.writesIlike : Query → Bool
  | ⟨source, _, joins, conditions, grouping, _⟩ =>
    source.writesIlike || (Join.anyIlike joins || (Predicate.anyIlike conditions ||
      grouping.writesIlike))

def Source.writesIlike : Source → Bool
  | .query q _ => q.writesIlike
  | _ => false

def JoinTarget.writesIlike : JoinTarget → Bool
  | .query q => q.writesIlike
  | .table _ => false

def Join.writesIlike : Join → Bool
  | ⟨target, _, conditions, _⟩ => target.writesIlike || conditions.any JoinTerm.writesIlike

def Join.anyIlike : List Join → Bool
  | [] => false
  | j :: js => j.writesIlike || Join.anyIlike js

/-- Whether ILIKE is written for a predicate. For a pattern match the engine chooses. -/
def Predicate.writesIlike : Predicate → Bool
  | .comparison _ op _ _ => op.isIlike
  | .columnComparison _ op _ _ => op.isIlike
  | .inSet _ source _ => source.writesIlike
  | .anyOf ps => Predicate.anyIlike ps
  | _ => false

def SetSource.writesIlike : SetSource → Bool
  | .query q => q.writesIlike
  | .values _ => false

def Predicate.anyIlike : List Predicate → Bool
  | [] => false
  | p :: ps => p.writesIlike || Predicate.anyIlike ps

/-- Without grouping columns the predicates on groups are not written. -/
def Grouping.writesIlike : Grouping → Bool
  | ⟨columns, having⟩ => !columns.isEmpty && HavingEntry.anyIlike having

def HavingEntry.anyIlike : List HavingEntry → Bool
  | [] => false
  | ⟨_, predicate⟩ :: rest => predicate.writesIlike || HavingEntry.anyIlike rest

end

/-! ## Parts without nested queries -/

open Doc (Says SaysAny Divides)

theorem Operator.says_doc (op : Operator) : op.doc.Says op.isIlike :=
  (Says.own _).cast (by cases op <;> decide)

theorem Connective.says_doc (c : Connective) : c.doc.Says false :=
  (Says.own _).cast (by cases c <;> decide)

theorem Doc.says_name (s : String) : (Doc.name s).Says false :=
  Says.leaf _

theorem Doc.says_empty : Doc.empty.Says false :=
  Says.word "" (by decide)

theorem Doc.opens_empty : Doc.empty.Opens :=
  Doc.opens_word rfl

theorem Column.says_doc (c : Column) : c.doc.Says false := by
  cases c with
  | raw sql params standalone => exact Says.leaf _
  | named name table asName =>
      have hname := Doc.says_name name
      cases table with
      | none =>
          cases asName with
          | none => exact hname
          | some a => exact hname.parens.between " AS " (Doc.says_name a) (by decide)
      | some t =>
          have hlocator := (Doc.says_name t).between "." hname (by decide)
          cases asName with
          | none => exact hlocator
          | some a => exact hlocator.parens.between " AS " (Doc.says_name a) (by decide)
  | aggregate function operand asName =>
      have hword : (Doc.own function.keyword (by cases function <;> decide)).Says false :=
        (Says.own _).cast (by cases function <;> decide)
      have hcall := hword.append (Doc.says_name operand).parens (.inr (Doc.opens_parens _))
      cases asName with
      | none => exact hcall
      | some a => exact hcall.between " " (Doc.says_name a) Doc.divides_space

theorem Projection.says_doc (p : Projection) : p.doc.Says false := by
  have hcolumns : (if p.columns.isEmpty then Doc.word "*"
      else Doc.sep Doc.comma (p.columns.map Column.doc)).Says false := by
    split
    · exact Says.word "*" (by decide)
    · refine (SaysAny.of_forall fun a ha => ?_).commas
      obtain ⟨c, -, rfl⟩ := List.mem_map.1 ha
      exact c.says_doc
  rw [Projection.doc]
  cases p.distinct with
  | true => exact hcolumns.behind "DISTINCT " (by decide)
  | false => exact hcolumns.behind "" (by decide)

theorem Source.says_rowDoc (row : List Value) : (Source.rowDoc row).Says false := by
  refine (SaysAny.of_forall fun a ha => ?_).commas.parens
  obtain ⟨v, -, rfl⟩ := List.mem_map.1 ha
  exact (Says.leaf _).parens

theorem OrderTerm.says_clauseDoc (terms : List OrderTerm) :
    (OrderTerm.clauseDoc terms).Says false := by
  rw [OrderTerm.clauseDoc]
  split
  · exact Doc.says_empty
  · have hterms : SaysAny (terms.map OrderTerm.doc) false := by
      refine SaysAny.of_forall fun a ha => ?_
      obtain ⟨t, -, rfl⟩ := List.mem_map.1 ha
      rw [OrderTerm.doc]
      cases t.ascending with
      | true => exact (Doc.says_name t.column).before " ASC" (by decide) (by decide)
      | false => exact (Doc.says_name t.column).before " DESC" (by decide) (by decide)
    exact hterms.commas.behind "ORDER BY " (by decide)

theorem Doc.says_suffix (asName : Option String) : (Doc.suffix asName).Says false := by
  cases asName with
  | none => exact Doc.says_empty
  | some a => exact (Doc.says_name a).behind " " Doc.divides_space.toLeads

theorem Doc.opens_suffix (asName : Option String) : (Doc.suffix asName).Opens := by
  cases asName with
  | none => exact Doc.opens_empty
  | some a => exact Doc.divides_space.opens _

/-! ## ON clauses -/

theorem JoinTerm.opens_doc (t : JoinTerm) : t.doc.Opens := by
  rw [JoinTerm.doc]
  refine Doc.Opens.append ?_ (Doc.divides_space.opens _)
  cases t.connective with
  | none => exact Doc.opens_empty
  | some c => exact Doc.divides_space.opens _

theorem JoinTerm.says_doc (t : JoinTerm) : t.doc.Says t.writesIlike := by
  rcases t with ⟨⟨left, op, right⟩, connective⟩
  have hright := op.says_doc.between " " (Doc.says_name right) Doc.divides_space
  have hsides := (Doc.says_name left).between " " hright Doc.divides_space
  have hterm := (hsides.behind " " Doc.divides_space.toLeads).cast (show _ = op.isIlike by simp)
  cases connective with
  | none => exact Doc.says_empty.append hterm (.inr (Doc.divides_space.opens _))
  | some c =>
      have hword := c.says_doc.behind " " Doc.divides_space.toLeads
      exact hword.append hterm (.inr (Doc.divides_space.opens _))

theorem JoinTerm.says_concat (terms : List JoinTerm) :
    (Doc.concat (terms.map JoinTerm.doc)).Says (terms.any JoinTerm.writesIlike) ∧
      (Doc.concat (terms.map JoinTerm.doc)).Opens := by
  induction terms with
  | nil => exact ⟨Doc.says_empty, Doc.opens_empty⟩
  | cons t terms ih =>
      obtain ⟨hrest, hopens⟩ := ih
      exact ⟨t.says_doc.append hrest (.inr hopens), t.opens_doc.append hopens⟩

theorem JoinTerm.says_clauseDoc (terms : List JoinTerm) :
    (JoinTerm.clauseDoc terms).Says (terms.any JoinTerm.writesIlike) ∧
      (JoinTerm.clauseDoc terms).Opens := by
  rw [JoinTerm.clauseDoc]
  split
  · next hnil =>
    rw [List.isEmpty_iff.1 hnil]
    exact ⟨Doc.says_empty, Doc.opens_empty⟩
  · obtain ⟨hterms, hopens⟩ := JoinTerm.says_concat terms
    exact ⟨((Says.word " ON" (by decide)).append hterms (.inr hopens)).cast (Bool.false_or _),
      Doc.opens_word_append (by decide) _⟩

/-! ## Pattern matches -/

theorem Value.says_doc (v : Value) : v.doc.Says false :=
  Says.leaf _

theorem Doc.says_call {function : String} {a : Doc} {plain : function.toList.all isOwnChar = true}
    (hfunction : Text.hasIlike function.toList = false) (ha : a.Says false) :
    (Doc.call function a plain).Says false :=
  ((Says.own plain).cast hfunction).append ha.parens (.inr (Doc.opens_parens _))

theorem Doc.says_cased (caseSensitive : Bool) {a : Doc} (ha : a.Says false) :
    (Doc.cased caseSensitive a).Says false := by
  cases caseSensitive with
  | true => exact ha
  | false => exact Doc.says_call (by decide) ha

theorem Doc.says_nots (negated : Bool) : SaysAny (Doc.nots negated) false := by
  cases negated with
  | true => exact .word "NOT" (by decide) .nil
  | false => exact .nil

/-- **All engines but Postgres** have an expression of their own for a pattern match. -/
theorem Dialect.says_likeParts {d : Dialect} (hd : d ≠ .postgres) (column : String)
    (pattern : Value) (o : LikeOptions) (negated : Bool) :
    SaysAny (d.likeParts column pattern o negated) false := by
  have hname := Doc.says_name column
  have hvalue := pattern.says_doc
  have hmySql : (Doc.own (mySqlCollation o) (plain_mySqlCollation o)).Says false := by
    refine (Says.own _).cast ?_
    unfold mySqlCollation
    split
    · decide
    · split <;> decide
  have hsqlServer : (Doc.own (sqlServerCollation o) (plain_sqlServerCollation o)).Says false := by
    refine (Says.own _).cast ?_
    unfold sqlServerCollation
    split <;> decide
  have hcolumn : SaysAny (d.columnParts column o) false := by
    cases d with
    | postgres => exact absurd rfl hd
    | generic | sqlite => exact .cons (Doc.says_cased _ hname) .nil
    | mySql => exact .cons hname .nil
    | sqlServer => exact .cons hname (.word "COLLATE" (by decide) (.cons hsqlServer .nil))
  have hpattern : SaysAny (d.patternParts pattern o) false := by
    cases d with
    | postgres => exact absurd rfl hd
    | generic | sqlite => exact .word "LIKE" (by decide) (.cons (Doc.says_cased _ hvalue) .nil)
    | mySql =>
        exact .word "LIKE" (by decide) (.cons hvalue (.word "COLLATE" (by decide)
          (.cons hmySql .nil)))
    | sqlServer => exact .word "LIKE" (by decide) (.cons hvalue .nil)
  have hescape := SaysAny.word "ESCAPE" (by decide) (.cons (Says.leaf (.escape o.escape)) .nil)
  exact hcolumn.append ((Doc.says_nots negated).append (hpattern.append hescape))

theorem Dialect.says_compareDoc (d : Dialect) (column : String) (length : Nat) :
    (d.compareDoc column length).Says false := by
  have hnumber (n : Nat) : (Doc.number n).Says false := by
    refine (Says.own _).cast ?_
    rw [Nat.toString_eq_ofList_toDigits, String.toList_ofList,
      ← List.append_nil (Nat.toDigits 10 n)]
    exact Text.hasIlike_append_of_forall (fun c hc => Text.toUpper_of_mem_toDigits hc) rfl
  cases d with
  | sqlServer =>
      have htype := (Says.word " AS NVARCHAR" (by decide)).append (hnumber (max length 1)).parens
        (.inr (Doc.opens_parens _))
      exact Doc.says_call (by decide) ((Doc.says_name column).append htype
        (.inr (Doc.opens_word_append (by decide) _)))
  | _ => exact Doc.says_name column

theorem Doc.says_membership (column : String) (negated : Bool) {a : Doc} {x : Bool}
    (ha : a.Says x) : (Doc.membership column negated a).Says x := by
  have hset := SaysAny.word "IN" (by decide) (.cons ha.parens .nil)
  have hparts := (Doc.says_nots negated).append hset
  have hall := SaysAny.cons (Doc.says_name column) hparts
  exact hall.spaces.cast (by simp)

/-! ## Statements -/

mutual

/-- **A statement has the word ILIKE exactly if an operator is written as it is**, for the
engines that match patterns by expressions of their own. -/
theorem Query.says_doc {d : Dialect} (hd : d ≠ .postgres) :
    (q : Query) → (q.doc d).Says q.writesIlike
  | ⟨source, projection, joins, conditions, grouping, ordering⟩ => by
      have hselect := projection.says_doc.behind "SELECT " (by decide)
      have hfrom := (Source.says_doc hd source).behind "FROM " (by decide)
      have hjoins := (Join.says_docs hd joins).spaces
      have hwhere := (Predicate.says_conjunctionDoc hd conditions).headed "WHERE " (by decide)
      have hall := (SaysAny.cons hselect (.cons hfrom (.cons hjoins (.cons hwhere
        (.cons (Grouping.says_doc hd grouping) (.cons (OrderTerm.says_clauseDoc ordering)
          .nil)))))).clauses
      rw [Query.doc, Query.writesIlike]
      exact hall.cast (by simp)

theorem Source.says_doc {d : Dialect} (hd : d ≠ .postgres) :
    (s : Source) → (s.doc d).Says s.writesIlike
  | .table name asName => by
      rw [Source.doc]
      exact (Says.leaf _).append (Doc.says_suffix asName) (.inr (Doc.opens_suffix asName))
  | .values rows aliases name => by
      have hrows : SaysAny (rows.map Source.rowDoc) false := by
        refine SaysAny.of_forall fun a ha => ?_
        obtain ⟨row, -, rfl⟩ := List.mem_map.1 ha
        exact Source.says_rowDoc row
      have hlines := (((hrows.sep ",\n" (by decide)).before "\n" (by decide)
        (by decide)).behind "\n" (by decide)).parens
      cases aliases with
      | none =>
          rw [Source.doc]
          exact (Says.word "VALUES" (by decide)).append
            (hlines.append Doc.says_empty (.inr Doc.opens_empty))
            (.inr ((Doc.opens_parens _).append Doc.opens_empty))
      | some names =>
          have hnames := ((SaysAny.names names).sep "," (by decide)).parens
          have halias := ((Doc.says_name name).append hnames
            (.inr (Doc.opens_parens _))).behind " AS " (by decide)
          have hopens (a : Doc) : (Doc.asWord ++ a).Opens :=
            Doc.opens_word_append (by decide) a
          rw [Source.doc]
          exact (Says.word "VALUES" (by decide)).append (hlines.append halias (.inr (hopens _)))
            (.inr ((Doc.opens_parens _).append (hopens _)))
  | .query q asName => by
      rw [Source.doc]
      exact ((Query.says_doc hd q).parens.append (Doc.says_suffix asName)
        (.inr (Doc.opens_suffix asName))).cast (Bool.or_false _)

theorem JoinTarget.says_doc {d : Dialect} (hd : d ≠ .postgres) :
    (t : JoinTarget) → (t.doc d).Says t.writesIlike
  | .table name => by
      rw [JoinTarget.doc]
      exact Says.leaf _
  | .query q => by
      rw [JoinTarget.doc]
      exact (Query.says_doc hd q).parens

theorem Join.says_doc {d : Dialect} (hd : d ≠ .postgres) :
    (j : Join) → (j.doc d).Says j.writesIlike
  | ⟨target, kind, conditions, asName⟩ => by
      obtain ⟨hconditions, hopens⟩ := JoinTerm.says_clauseDoc conditions
      have hkind : (Doc.own kind.keyword (by cases kind <;> decide)).Says false :=
        (Says.own _).cast (by cases kind <;> decide)
      have hname := (Doc.says_name asName).append hconditions (.inr hopens)
      have htarget := (JoinTarget.says_doc hd target).between " " hname Doc.divides_space
      have hall := (hkind.between " JOIN " htarget (by decide)).collapsed
      rw [Join.doc, Join.writesIlike]
      exact hall.cast (by simp)

theorem Join.says_docs {d : Dialect} (hd : d ≠ .postgres) :
    (js : List Join) → SaysAny (Join.docs d js) (Join.anyIlike js)
  | [] => .nil
  | j :: js => .cons (Join.says_doc hd j) (Join.says_docs hd js)

theorem Predicate.says_doc {d : Dialect} (hd : d ≠ .postgres) :
    (p : Predicate) → (p.doc d).Says p.writesIlike
  | .comparison column op value negated => by
      have hparts : SaysAny [Doc.name column, op.doc, value.doc] _ :=
        .cons (Doc.says_name column) (.cons op.says_doc (.cons value.says_doc .nil))
      rw [Predicate.doc]
      exact ((Doc.says_nots negated).append hparts).spaces.cast (by simp [Predicate.writesIlike])
  | .columnComparison column op other negated => by
      have hparts : SaysAny [Doc.name column, op.doc, Doc.name other] _ :=
        .cons (Doc.says_name column) (.cons op.says_doc (.cons (Doc.says_name other) .nil))
      rw [Predicate.doc]
      exact ((Doc.says_nots negated).append hparts).spaces.cast (by simp [Predicate.writesIlike])
  | .nullCheck column negated => by
      have hparts := SaysAny.cons (Doc.says_name column) (.word "IS" (by decide)
        ((Doc.says_nots negated).append (.word "NULL" (by decide) .nil)))
      rw [Predicate.doc]
      exact hparts.spaces
  | .fullText column value negated => by
      have hparts := SaysAny.cons (Dialect.says_compareDoc d column value.length)
        (.word "=" (by decide) (.cons (Value.says_doc (.text value)) .nil))
      rw [Predicate.doc]
      exact ((Doc.says_nots negated).append hparts).spaces
  | .pattern column value negated options => by
      rw [Predicate.doc]
      exact (Dialect.says_likeParts hd column (.text value) options negated).spaces
  | .inSet column (.values []) negated => by
      rw [Predicate.doc]
      cases negated with
      | true => exact (SaysAny.word "1" (by decide) (.word "=" (by decide)
          (.word "1" (by decide) .nil))).spaces
      | false => exact (SaysAny.word "1" (by decide) (.word "=" (by decide)
          (.word "0" (by decide) .nil))).spaces
  | .inSet column (.values (v :: vs)) negated => by
      have hset := SetSource.says_doc hd (.values (v :: vs))
      rw [Predicate.doc]
      · exact Doc.says_membership column negated hset
      · simp
  | .inSet column (.query q) negated => by
      have hset := SetSource.says_doc hd (.query q)
      rw [Predicate.doc]
      · exact Doc.says_membership column negated hset
      · simp
  | .anyOf ps => by
      rw [Predicate.doc]
      exact ((Predicate.says_docs hd ps).sep " OR " (by decide)).parens

theorem SetSource.says_doc {d : Dialect} (hd : d ≠ .postgres) :
    (s : SetSource) → (s.doc d).Says s.writesIlike
  | .values vs => by
      rw [SetSource.doc]
      refine (SaysAny.of_forall fun a ha => ?_).commas
      obtain ⟨v, -, rfl⟩ := List.mem_map.1 ha
      exact v.says_doc
  | .query q => by
      rw [SetSource.doc]
      exact Query.says_doc hd q

theorem Predicate.says_docs {d : Dialect} (hd : d ≠ .postgres) :
    (ps : List Predicate) → SaysAny (Predicate.docs d ps) (Predicate.anyIlike ps)
  | [] => .nil
  | p :: ps => .cons (Predicate.says_doc hd p) (Predicate.says_docs hd ps)

theorem Predicate.says_conjunctionDoc {d : Dialect} (hd : d ≠ .postgres) :
    (ps : List Predicate) → (Predicate.conjunctionDoc d ps).Says (Predicate.anyIlike ps)
  | [] => Doc.says_empty
  | [p] => by
      have hp := Predicate.says_doc hd p
      rw [Predicate.anyIlike, Predicate.anyIlike, Bool.or_false]
      cases p with
      | anyOf ps =>
          rw [Predicate.conjunctionDoc, Predicate.writesIlike]
          exact (Predicate.says_docs hd ps).sep " OR " (by decide)
      | _ =>
          rw [Predicate.conjunctionDoc]
          · exact hp
          · simp
  | p :: q :: ps => by
      have hall := Predicate.says_docs hd (p :: q :: ps)
      rw [Predicate.conjunctionDoc]
      · exact hall.sep " AND " (by decide)
      · simp

theorem Grouping.says_doc {d : Dialect} (hd : d ≠ .postgres) :
    (g : Grouping) → (g.doc d).Says g.writesIlike
  | ⟨columns, having⟩ => by
      obtain ⟨hchain, hopens⟩ := HavingEntry.says_chainDoc hd true having
      have hnames := (SaysAny.names columns).commas.append hchain (.inr hopens)
      rw [Grouping.doc, Grouping.writesIlike]
      cases columns.isEmpty with
      | true => exact Doc.says_empty
      | false => exact hnames.behind "GROUP BY " (by decide)

/-- The chain begins with a space. -/
theorem HavingEntry.says_chainDoc {d : Dialect} (hd : d ≠ .postgres) :
    (first : Bool) → (es : List HavingEntry) →
      (HavingEntry.chainDoc d first es).Says (HavingEntry.anyIlike es) ∧
        (HavingEntry.chainDoc d first es).Opens
  | _, [] => ⟨Doc.says_empty, Doc.opens_empty⟩
  | first, ⟨connective, predicate⟩ :: rest => by
      obtain ⟨hrest, hopens⟩ := HavingEntry.says_chainDoc hd false rest
      have hword : (if first then Doc.word "HAVING" else connective.doc).Says false := by
        cases first with
        | true => exact Says.word "HAVING" (by decide)
        | false => exact connective.says_doc
      have htail := (Predicate.says_doc hd predicate).append hrest (.inr hopens)
      have hall := (hword.between " " htail Doc.divides_space).behind " " Doc.divides_space.toLeads
      rw [HavingEntry.chainDoc, HavingEntry.anyIlike]
      exact ⟨hall.cast (by simp), Doc.divides_space.opens _⟩

end

/-! ## What calls write -/

theorem Join.anyIlike_eq (js : List Join) : Join.anyIlike js = js.any Join.writesIlike := by
  induction js with
  | nil => rfl
  | cons j js ih => rw [Join.anyIlike, ih, List.any_cons]

namespace Predicate

theorem anyIlike_eq (ps : List Predicate) :
    Predicate.anyIlike ps = ps.any Predicate.writesIlike := by
  induction ps with
  | nil => rfl
  | cons p ps ih => rw [Predicate.anyIlike, ih, List.any_cons]

/-- The operator of a comparison with a value is never written as ILIKE. -/
@[simp] theorem writesIlike_compare (column : String) (op : Operator) (value : Value)
    (negated : Bool) : (Predicate.compare column op value negated).writesIlike = false := by
  cases op <;> rfl

theorem writesIlike_orElse (p next : Predicate) :
    (p.orElse next).writesIlike = (p.writesIlike || next.writesIlike) := by
  have halternatives : p.alternatives.any Predicate.writesIlike = p.writesIlike := by
    cases p with
    | anyOf ps => exact (anyIlike_eq ps).symm
    | _ => exact Bool.or_false _
  rw [orElse, Predicate.writesIlike, anyIlike_eq, List.any_append, halternatives, List.any_cons,
    List.any_nil, Bool.or_false]

/-- An alternative adds what an operand adds. -/
theorem any_writesIlike_push (connective : Connective) (p : Predicate) (ps : List Predicate) :
    (push connective p ps).any Predicate.writesIlike =
      (ps.any Predicate.writesIlike || p.writesIlike) := by
  fun_induction push connective p ps with
  | case1 => simp
  | case2 last => simp
  | case3 last => simp [writesIlike_orElse]
  | case4 q r rest ih =>
      rw [List.any_cons, ih, ← Bool.or_assoc]
      rfl

theorem any_writesIlike_pushAll (pushes : List (Connective × Predicate)) (ps : List Predicate) :
    (pushAll pushes ps).any Predicate.writesIlike =
      (ps.any Predicate.writesIlike || pushes.any fun c => c.2.writesIlike) := by
  induction pushes generalizing ps with
  | nil => exact (Bool.or_false _).symm
  | cons c pushes ih =>
      have hstep : pushAll (c :: pushes) ps = pushAll pushes (push c.1 c.2 ps) := rfl
      rw [hstep, ih, any_writesIlike_push, List.any_cons, Bool.or_assoc]

end Predicate

theorem HavingEntry.anyIlike_eq (es : List HavingEntry) :
    HavingEntry.anyIlike es = es.any fun e => e.predicate.writesIlike := by
  induction es with
  | nil => rfl
  | cons e es ih =>
      rcases e with ⟨connective, predicate⟩
      rw [HavingEntry.anyIlike, ih, List.any_cons]

/-- Whether ILIKE is written for what an edit adds. -/
def Edit.writesIlike : Edit → Bool
  | .addJoin j => j.writesIlike
  | .push pushes => pushes.any fun c => c.2.writesIlike
  | .addHaving entry => entry.predicate.writesIlike
  | _ => false

/-- No predicate on groups writes ILIKE, with or without groups. -/
def Query.SilentHaving (q : Query) : Prop :=
  HavingEntry.anyIlike q.grouping.having = false

namespace Query.SilentHaving

variable {q : Query}

theorem writesIlike_eq (h : q.SilentHaving) :
    q.writesIlike = (q.source.writesIlike ||
      (q.joins.any Join.writesIlike || q.conditions.any Predicate.writesIlike)) := by
  rcases q with ⟨source, projection, joins, conditions, ⟨columns, having⟩, ordering⟩
  have hhaving : HavingEntry.anyIlike having = false := h
  rw [Query.writesIlike, Grouping.writesIlike, hhaving, Bool.and_false, Bool.or_false,
    Join.anyIlike_eq, Predicate.anyIlike_eq]

/-- An edit that adds no such predicate keeps it so. -/
theorem apply (h : q.SilentHaving) {e : Edit}
    (he : ∀ entry, e = .addHaving entry → entry.predicate.writesIlike = false) :
    (e.apply q).SilentHaving := by
  cases e with
  | addHaving entry =>
      rw [SilentHaving, HavingEntry.anyIlike_eq] at h
      rw [SilentHaving, Edit.apply, HavingEntry.anyIlike_eq, List.any_append, h, List.any_cons,
        he entry rfl]
      rfl
  | _ => exact h

/-- **An edit adds what it writes**, whatever stands in the query already. -/
theorem writesIlike_apply (h : q.SilentHaving) {e : Edit}
    (he : ∀ entry, e = .addHaving entry → entry.predicate.writesIlike = false) :
    (e.apply q).writesIlike = (q.writesIlike || e.writesIlike) := by
  rw [(h.apply he).writesIlike_eq, h.writesIlike_eq]
  cases e with
  | addJoin j => simp [Edit.apply, Edit.writesIlike, Bool.or_assoc, Bool.or_comm, Bool.or_left_comm]
  | push pushes =>
      simp [Edit.apply, Edit.writesIlike, Predicate.any_writesIlike_pushAll, Bool.or_assoc]
  | addHaving entry => simp [Edit.apply, Edit.writesIlike, he entry rfl]
  | _ => exact (Bool.or_false _).symm

end Query.SilentHaving

/-- Whether the operator that an argument is ignores the case. -/
def OperatorArg.isIlike (op : OperatorArg) : Bool :=
  match op.resolve with
  | .ok op => op.isIlike
  | .error _ => false

/-- Whether one of the conditions that are read has such an operator. -/
def ConditionSpec.writesIlike (on : ConditionSpec) : Bool :=
  match on.resolve with
  | .ok terms => terms.any JoinTerm.writesIlike
  | .error _ => false

namespace Call

/-- Whether ILIKE is written for a call, other than for a pattern match: for a comparison of two
columns and a condition of a join with such an operator, and for a predicate or a query that the
caller brings along. -/
def writesIlike : Call → Bool
  | .compareColumns _ _ op _ => op.isIlike
  | .join _ target on _ => target.writesIlike || on.writesIlike
  | .inSet _ _ source => source.writesIlike
  | .predicate _ p => p.writesIlike
  | _ => false

/-- Whether a call takes an operator or conditions of a join. -/
def takesOperator : Call → Bool
  | .compare .. | .compareColumns .. | .having .. | .join .. => true
  | _ => false

variable {c : Call} {e : Edit}

/-- What a call writes is what its edit adds. -/
theorem writesIlike_resolve (h : c.resolve = .ok e) : e.writesIlike = c.writesIlike := by
  cases c with
  | selectRaw sql params =>
      obtain ⟨-, rfl⟩ := of_resolve_selectRaw h
      rfl
  | compare connective negated column op value =>
      obtain ⟨op, -, rfl⟩ := exists_of_map_eq_ok h
      simp [Edit.writesIlike, writesIlike]
  | compareColumns connective column op other =>
      obtain ⟨op', hop, rfl⟩ := exists_of_map_eq_ok h
      simp [Edit.writesIlike, writesIlike, OperatorArg.isIlike, hop, Predicate.writesIlike]
  | having connective column op value =>
      obtain ⟨op, -, rfl⟩ := exists_of_map_eq_ok h
      exact Predicate.writesIlike_compare ..
  | join kind target on asName =>
      obtain ⟨-, terms, hterms, rfl⟩ := of_resolve_join h
      simp [Edit.writesIlike, writesIlike, ConditionSpec.writesIlike, hterms, Join.writesIlike]
  | inSet | predicate => exact Except.ok.inj h ▸ Bool.or_false _
  | _ => exact Except.ok.inj h ▸ rfl

/-- Calls add no predicate on groups that writes ILIKE. -/
theorem writesIlike_having {entry : HavingEntry} (h : c.resolve = .ok (.addHaving entry)) :
    entry.predicate.writesIlike = false := by
  have hclause : Clause.grouping = c.clause := clause_resolve h
  cases c with
  | having connective column op value =>
      obtain ⟨op, -, hentry⟩ := exists_of_map_eq_ok h
      obtain rfl := Edit.addHaving.inj hentry
      exact Predicate.writesIlike_compare ..
  | groupBy columns => exact nomatch Except.ok.inj h
  | _ => contradiction

end Call

namespace Query

/-- **A run adds what its accepted calls write.** -/
theorem writesIlike_run {q : Query} (hq : q.SilentHaving) (calls : List Call) :
    (q.run calls).writesIlike =
      (q.writesIlike || calls.any fun c => c.isAccepted && c.writesIlike) := by
  induction calls generalizing q with
  | nil => exact (Bool.or_false _).symm
  | cons c calls ih =>
      rw [run_cons, List.any_cons]
      cases h : c.resolve with
      | error e =>
          rw [after_of_error h, Call.isAccepted_of_error h]
          exact ih hq
      | ok e =>
          have hhaving (entry) (he : e = .addHaving entry) : entry.predicate.writesIlike = false :=
            Call.writesIlike_having (he ▸ h)
          have hrest := ih (hq.apply hhaving)
          rw [hq.writesIlike_apply hhaving, Call.writesIlike_resolve h] at hrest
          rw [after_of_ok h, hrest, Call.isAccepted_of_ok h, Bool.true_and, Bool.or_assoc]

/-- **Which statements have the word ILIKE.** For every engine but Postgres, and if the caller
does not say the word, it stands in a statement exactly if it is written for the source or for
an accepted call: a comparison of columns or a condition of a join with an operator that ignores
the case, or a predicate or query that brings such an operator along. Without them the statement
does not have the word outside its literals either: comparisons with values, in WHERE and HAVING,
match their patterns by the engine's own expression. -/
theorem hasIlike_run_iff (source : Source) (calls : List Call) {d : Dialect}
    (hd : d ≠ .postgres) (h : ∀ l ∈ ((ofSource source).run calls).leaves, l.Quiet) :
    (Text.hasIlike (((ofSource source).run calls).compile d).sql.toList = true ↔
      source.writesIlike = true ∨ ∃ c ∈ calls, c.isAccepted = true ∧ c.writesIlike = true) ∧
    (Text.hasBareIlike (((ofSource source).run calls).compile d).sql.toList = true →
      source.writesIlike = true ∨ ∃ c ∈ calls, c.isAccepted = true ∧ c.writesIlike = true) := by
  have hfresh : (ofSource source).SilentHaving := rfl
  have hsource : (ofSource source).writesIlike = source.writesIlike := by
    rw [hfresh.writesIlike_eq]
    exact Bool.or_false _
  have hsays := Query.says_doc hd ((ofSource source).run calls)
  rw [Doc.Says, Query.leaves_doc] at hsays
  have hiff : Text.hasIlike (((ofSource source).run calls).compile d).sql.toList = true ↔
      source.writesIlike = true ∨ ∃ c ∈ calls, c.isAccepted = true ∧ c.writesIlike = true := by
    rw [compile_eq, String.toList_ofList, hsays h, writesIlike_run hfresh, hsource]
    simp
  exact ⟨hiff, fun hbare => hiff.1 (Text.hasIlike_of_hasBareIlike hbare)⟩

/-- Calls that match patterns, with values and columns that are compared otherwise. -/
def patternCalls : List Call :=
  [.compare .and false "a" (.token " ilike ") (.text "x ILIKE y"),
    .compare .or true "b" (.token "Not  Like") (.text "z%"),
    .compareColumns .and "a" (.token "<>") "b",
    .join .left (.table "u") (.sequence [.text "t.id = u.id", .text "or",
      .triple "t.c" "not like" "u.c"]) "u",
    .groupBy ["a"], .having .or "MAX(b)" (.token "NOT ILIKE") (.text "w")]

theorem hasBareIlike_patternCalls :
    Dialect.sqlServer ≠ .postgres ∧
    (∀ l ∈ ((table "t" none).run patternCalls).leaves, l.Quiet) ∧
    (∀ c ∈ patternCalls, c.isAccepted = true) ∧
    Text.hasBareIlike (((table "t" none).run patternCalls).compile .sqlServer).sql.toList =
      false := by
  have hd : Dialect.sqlServer ≠ .postgres := by decide
  have hquiet : ∀ l ∈ ((table "t" none).run patternCalls).leaves, l.Quiet := by decide +kernel
  refine ⟨hd, hquiet, by decide +kernel, Bool.eq_false_iff.2 fun hbare => ?_⟩
  have hwrites := (hasIlike_run_iff (.table "t" none) patternCalls hd hquiet).2 hbare
  revert hwrites
  decide +kernel

/-- **The operator of a comparison of columns is written as it is**, for every engine: not all
statements of calls with an operator are without the word. -/
theorem hasBareIlike_columns :
    ¬ ∀ (name : String) (calls : List Call) (d : Dialect), d ≠ .postgres →
      (∀ c ∈ calls, c.isAccepted = true ∧ c.takesOperator = true) →
      (∀ l ∈ ((table name none).run calls).leaves, l.Quiet) →
      Text.hasBareIlike (((table name none).run calls).compile d).sql.toList = false := by
  intro h
  have hstatement := h "t" [.compareColumns .and "a" (.token "ilike") "b"] .generic (by decide)
    (by decide +kernel) (by decide +kernel)
  revert hstatement
  decide +kernel

end Query

end SelectSql
