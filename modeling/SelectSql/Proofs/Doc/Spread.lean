import SelectSql.Proofs.Erasure

/-!
# SelectSql.Proofs.Doc.Spread

No two values of a statement touch: between any two of them the writer puts a sign or a
word of its own. So the literal of one value never runs into that of the next, where two
quotes that meet would read as one quote of a longer literal.

Design points:

* **Trees are spread where they are put together** (`Doc.Spread`): of two trees one behind
  the other, either one has nothing but names, or the second begins with a word or sign of
  the writer.
* **An escape character counts as a value**, since it is written as a literal as well.

Main statement: the tree of a query is spread (`Query.spread_doc`).
-/

namespace SelectSql

/-! ## Spread trees -/

/-- A leaf that is a name, and never a literal. -/
def Leaf.IsName : Leaf → Prop
  | .text _ | .table _ => True
  | _ => False

namespace Doc

/-- A tree with nothing but names and words. -/
def Named (a : Doc) : Prop :=
  ∀ l ∈ a.leaves, l.IsName

/-- A tree that begins with a word or sign of the writer. -/
def Led : Doc → Prop
  | .own s _ => s.toList ≠ []
  | .append a _ => a.Led
  | .parens _ => True
  | _ => False

/-- A tree whose values do not touch. -/
def Spread : Doc → Prop
  | .own .. | .leaf _ => True
  | .append a b => a.Spread ∧ b.Spread ∧ (a.Named ∨ b.Named ∨ b.Led)
  | .parens a | .collapsed a | .headed _ _ a => a.Spread
  | .clause a rest => a.Spread ∧ rest.Spread

variable {a b : Doc}

@[simp] theorem named_word (s : String) (h : s.toList.all isOwnChar = true) :
    (word s h).Named := by
  simp [Named]

@[simp] theorem named_own (s : String) (h : s.toList.all isOwnChar = true) : (own s h).Named := by
  simp [Named, leaves]

@[simp] theorem named_name (s : String) : (name s).Named := by
  simp [Named, Leaf.IsName]

@[simp] theorem named_append : (a ++ b).Named ↔ a.Named ∧ b.Named := by
  simp [Named, or_imp, forall_and]

@[simp] theorem named_parens : (parens a).Named ↔ a.Named := Iff.rfl

@[simp] theorem named_empty : empty.Named := named_word _ _

@[simp] theorem named_sep (s : String) (h : s.toList.all isOwnChar = true) (as : List Doc) :
    (sep (word s h) as).Named ↔ ∀ a ∈ as, a.Named := by
  simp only [Named, leaves_sep, List.mem_flatMap]
  exact ⟨fun hall a ha l hl => hall l ⟨a, ha, hl⟩, fun hall l ⟨a, ha, hl⟩ => hall a ha l hl⟩

/-- Where there are only names, no values touch. -/
theorem Named.spread (h : a.Named) : a.Spread := by
  induction a with
  | own s plain => trivial
  | leaf l => trivial
  | append a b iha ihb =>
      obtain ⟨ha, hb⟩ := List.forall_mem_append.1 h
      exact ⟨iha ha, ihb hb, .inl ha⟩
  | parens a ih => exact ih h
  | collapsed a ih => exact ih h
  | headed head plain a ih => exact ih h
  | clause a b iha ihb =>
      obtain ⟨ha, hb⟩ := List.forall_mem_append.1 h
      exact ⟨iha ha, ihb hb⟩

theorem Named.append_spread (ha : a.Named) (hb : b.Spread) : (a ++ b).Spread :=
  ⟨ha.spread, hb, .inl ha⟩

theorem Spread.append_named (ha : a.Spread) (hb : b.Named) : (a ++ b).Spread :=
  ⟨ha, hb.spread, .inr (.inl hb)⟩

theorem Spread.append_led (ha : a.Spread) (hb : b.Spread) (hl : b.Led) : (a ++ b).Spread :=
  ⟨ha, hb, .inr (.inr hl)⟩

/-- What stands between the items of a list keeps their values apart. -/
theorem Spread.sep {s : String} {h : s.toList.all isOwnChar = true} (hs : s.toList ≠ [])
    {as : List Doc} (has : ∀ a ∈ as, a.Spread) : (sep (word s h) as).Spread := by
  induction as with
  | nil => trivial
  | cons a as ih =>
      have ha := has a (by simp)
      cases as with
      | nil => exact ha
      | cons b as =>
          have hrest := ih fun c hc => has c (by simp [hc])
          exact ha.append_led ((named_word s h).append_spread hrest) hs

theorem Spread.spaces {as : List Doc} (has : ∀ a ∈ as, a.Spread) : (spaces as).Spread :=
  Spread.sep (by decide) has

/-- Each clause is followed by a space. -/
theorem Spread.clauses {as : List Doc} (has : ∀ a ∈ as, a.Spread) : (clauses as).Spread := by
  induction as with
  | nil => trivial
  | cons a as ih => exact ⟨has a (by simp), ih fun b hb => has b (by simp [hb])⟩

theorem Spread.call {function : String} {h : function.toList.all isOwnChar = true}
    (ha : a.Spread) : (call function a h).Spread :=
  (named_own function h).append_spread ha

theorem Spread.cased (caseSensitive : Bool) (ha : a.Spread) :
    (Doc.cased caseSensitive a).Spread := by
  cases caseSensitive with
  | true => exact ha
  | false => exact ha.call

theorem Spread.accented (accentSensitive : Bool) (ha : a.Spread) :
    (Doc.accented accentSensitive a).Spread := by
  cases accentSensitive with
  | true => exact ha
  | false => exact ha.call

theorem Spread.nots (negated : Bool) : ∀ a ∈ nots negated, a.Spread := by
  cases negated <;> simp [Doc.nots, Named.spread]

end Doc

/-! ## Statements are spread -/

open Doc (Named Spread)

theorem Column.spread_doc (c : Column) : c.doc.Spread := by
  cases c with
  | raw sql params standalone => trivial
  | named name table asName =>
      have hnamed : (Column.named name table asName).doc.Named := by
        cases table <;> cases asName <;> simp [Column.doc]
      exact hnamed.spread
  | aggregate function operand asName =>
      have hnamed : (Column.aggregate function operand asName).doc.Named := by
        cases asName <;> simp [Column.doc]
      exact hnamed.spread

theorem Projection.spread_doc (p : Projection) : p.doc.Spread := by
  have hdistinct : (if p.distinct then Doc.word "DISTINCT " else Doc.empty).Named := by
    split <;> simp
  refine hdistinct.append_spread ?_
  split
  · exact (Doc.named_word _ _).spread
  · refine Spread.sep (by decide) fun a ha => ?_
    obtain ⟨c, -, rfl⟩ := List.mem_map.1 ha
    exact c.spread_doc

theorem Source.spread_rowDoc (row : List Value) : (Source.rowDoc row).Spread := by
  refine Spread.sep (by decide) fun a ha => ?_
  obtain ⟨v, -, rfl⟩ := List.mem_map.1 ha
  trivial

theorem JoinTerm.named_clauseDoc (terms : List JoinTerm) : (JoinTerm.clauseDoc terms).Named := by
  intro l hl
  rw [JoinTerm.leaves_clauseDoc] at hl
  obtain ⟨t, -, ht⟩ := List.mem_flatMap.1 hl
  simp only [JoinTerm.leaves, List.mem_cons, List.not_mem_nil, or_false] at ht
  rcases ht with rfl | rfl <;> trivial

theorem OrderTerm.named_clauseDoc (terms : List OrderTerm) : (OrderTerm.clauseDoc terms).Named := by
  intro l hl
  rw [OrderTerm.leaves_clauseDoc] at hl
  obtain ⟨t, -, rfl⟩ := List.mem_map.1 hl
  trivial

theorem Doc.named_suffix (asName : Option String) : (Doc.suffix asName).Named := by
  cases asName <;> simp [Doc.suffix]

theorem Doc.spread_membership (column : String) (negated : Bool) {a : Doc} (ha : a.Spread) :
    (Doc.membership column negated a).Spread := by
  refine Spread.spaces fun b hb => ?_
  rw [List.mem_append, List.mem_append] at hb
  rcases hb with hb | hb | hb
  · obtain rfl := List.mem_singleton.1 hb
    exact (Doc.named_name column).spread
  · exact Spread.nots negated b hb
  · simp only [List.mem_cons, List.not_mem_nil, or_false] at hb
    rcases hb with rfl | rfl
    · exact (Doc.named_word _ _).spread
    · exact ha

theorem Dialect.spread_likeParts (d : Dialect) (column : String) (pattern : Value)
    (o : LikeOptions) (negated : Bool) : ∀ a ∈ d.likeParts column pattern o negated, a.Spread := by
  have hname : (Doc.name column).Spread := (Doc.named_name column).spread
  have hvalue : pattern.doc.Spread := trivial
  have hword {s : String} {h : s.toList.all isOwnChar = true} : (Doc.own s h).Spread := trivial
  have hcolumn : ∀ a ∈ d.columnParts column o, a.Spread := by
    cases d <;>
      simp [Dialect.columnParts, Doc.word, hname, hword, Spread.cased, Spread.accented]
  have hpattern : ∀ a ∈ d.patternParts pattern o, a.Spread := by
    cases d <;>
      simp [Dialect.patternParts, Doc.word, hvalue, hword, Spread.cased, Spread.accented]
    -- Postgres has a word of its own for the match that ignores the case
    split <;> exact hword
  have hescape : ∀ a ∈ [Doc.word "ESCAPE", .leaf (.escape o.escape)], a.Spread := by
    simp [Doc.word, Spread]
  rw [Dialect.likeParts]
  simp only [List.forall_mem_append]
  exact ⟨hcolumn, Spread.nots negated, hpattern, hescape⟩

mutual

/-- **The values of a statement do not touch.** -/
theorem Query.spread_doc (d : Dialect) : (q : Query) → (q.doc d).Spread
  | ⟨source, projection, joins, conditions, grouping, ordering⟩ => by
      have hselect := (Doc.named_word "SELECT " (by decide)).append_spread projection.spread_doc
      have hfrom := (Doc.named_word "FROM " (by decide)).append_spread (Source.spread_doc d source)
      have hjoins : (Doc.sep Doc.space (Join.docs d joins)).Spread :=
        Spread.sep (by decide) (Join.spread_docs d joins)
      have hconditions := Predicate.spread_conjunctionDoc d conditions
      have hgrouping := Grouping.spread_doc d grouping
      have hordering := (OrderTerm.named_clauseDoc ordering).spread
      rw [Query.doc]
      refine Spread.clauses ?_
      simp only [List.forall_mem_cons, List.not_mem_nil, false_imp_iff, implies_true, and_true]
      exact ⟨hselect, hfrom, hjoins, hconditions, hgrouping, hordering⟩

theorem Source.spread_doc (d : Dialect) : (s : Source) → (s.doc d).Spread
  | .table name asName => by
      rw [Source.doc]
      exact Spread.append_named trivial (Doc.named_suffix asName)
  | .values rows aliases name => by
      have hrows : (Doc.sep (Doc.word ",\n") (rows.map Source.rowDoc)).Spread := by
        refine Spread.sep (by decide) fun a ha => ?_
        obtain ⟨row, -, rfl⟩ := List.mem_map.1 ha
        exact Source.spread_rowDoc row
      have hmatrix : (Doc.word "\n" ++ (Doc.sep (Doc.word ",\n") (rows.map Source.rowDoc) ++
          Doc.word "\n")).Spread :=
        (Doc.named_word _ _).append_spread (hrows.append_named (Doc.named_word _ _))
      cases aliases <;> rw [Source.doc] <;>
        refine (Doc.named_word _ _).append_spread (Spread.append_named hmatrix ?_) <;>
        simp
  | .query q asName => by
      rw [Source.doc]
      exact Spread.append_named (Query.spread_doc d q) (Doc.named_suffix asName)

theorem JoinTarget.spread_doc (d : Dialect) : (t : JoinTarget) → (t.doc d).Spread
  | .table name => trivial
  | .query q => by
      rw [JoinTarget.doc]
      exact Query.spread_doc d q

theorem Join.spread_doc (d : Dialect) : (j : Join) → (j.doc d).Spread
  | ⟨target, kind, conditions, asName⟩ => by
      have htarget := JoinTarget.spread_doc d target
      have hconditions := JoinTerm.named_clauseDoc conditions
      rw [Join.doc]
      refine (Doc.named_own _ _).append_spread ((Doc.named_word _ _).append_spread
        (htarget.append_named ?_))
      simp [hconditions]

theorem Join.spread_docs (d : Dialect) : (js : List Join) → ∀ a ∈ Join.docs d js, a.Spread
  | [] => by simp [Join.docs]
  | j :: js => by
      rw [Join.docs, List.forall_mem_cons]
      exact ⟨Join.spread_doc d j, Join.spread_docs d js⟩

theorem Predicate.spread_doc (d : Dialect) : (p : Predicate) → (p.doc d).Spread
  | .comparison column op value negated => by
      rw [Predicate.doc]
      refine Spread.spaces ?_
      cases negated <;> simp [Doc.nots, Operator.doc, Value.doc, Spread, Named.spread]
  | .columnComparison column op other negated => by
      rw [Predicate.doc]
      refine Spread.spaces ?_
      cases negated <;> simp [Doc.nots, Operator.doc, Spread, Named.spread]
  | .nullCheck column negated => by
      rw [Predicate.doc]
      refine Spread.spaces ?_
      cases negated <;> simp [Doc.nots, Named.spread]
  | .fullText column value negated => by
      have hcolumn : (d.compareDoc column value.length).Named := by
        cases d <;> simp [Dialect.compareDoc, Doc.call, Doc.number]
      rw [Predicate.doc]
      refine Spread.spaces ?_
      cases negated <;> simp [Doc.nots, Value.doc, Spread, Named.spread, hcolumn]
  | .pattern column value negated options => by
      rw [Predicate.doc]
      exact Spread.spaces (Dialect.spread_likeParts d column (.text value) options negated)
  | .inSet column (.values []) negated => by
      rw [Predicate.doc]
      refine Spread.spaces ?_
      cases negated <;> simp [Named.spread]
  | .inSet column (.values (v :: vs)) negated => by
      have hset := SetSource.spread_doc d (.values (v :: vs))
      rw [Predicate.doc]
      · exact Doc.spread_membership column negated hset
      · simp
  | .inSet column (.query q) negated => by
      have hset := SetSource.spread_doc d (.query q)
      rw [Predicate.doc]
      · exact Doc.spread_membership column negated hset
      · simp
  | .anyOf ps => by
      rw [Predicate.doc]
      exact Spread.sep (by decide) (Predicate.spread_docs d ps)

theorem SetSource.spread_doc (d : Dialect) : (s : SetSource) → (s.doc d).Spread
  | .values vs => by
      rw [SetSource.doc]
      refine Spread.sep (by decide) fun a ha => ?_
      obtain ⟨v, -, rfl⟩ := List.mem_map.1 ha
      trivial
  | .query q => by
      rw [SetSource.doc]
      exact Query.spread_doc d q

theorem Predicate.spread_docs (d : Dialect) :
    (ps : List Predicate) → ∀ a ∈ Predicate.docs d ps, a.Spread
  | [] => by simp [Predicate.docs]
  | p :: ps => by
      rw [Predicate.docs, List.forall_mem_cons]
      exact ⟨Predicate.spread_doc d p, Predicate.spread_docs d ps⟩

theorem Predicate.spread_conjunctionDoc (d : Dialect) :
    (ps : List Predicate) → (Predicate.conjunctionDoc d ps).Spread
  | [] => trivial
  | [p] => by
      have hp := Predicate.spread_doc d p
      cases p with
      | anyOf ps =>
          rw [Predicate.doc] at hp
          rw [Predicate.conjunctionDoc]
          exact hp
      | _ => exact hp
  | p :: q :: ps => by
      have hall := Predicate.spread_docs d (p :: q :: ps)
      rw [Predicate.conjunctionDoc]
      · exact Spread.sep (by decide) hall
      · simp

theorem Grouping.spread_doc (d : Dialect) : (g : Grouping) → (g.doc d).Spread
  | ⟨columns, having⟩ => by
      rw [Grouping.doc]
      split
      · trivial
      · have hnames : (Doc.sep Doc.comma (columns.map Doc.name)).Named := by simp
        exact (Doc.named_word _ _).append_spread
          (hnames.append_spread (HavingEntry.spread_chainDoc d true having).1)

/-- The chain begins with a space, so it can stand behind a predicate. -/
theorem HavingEntry.spread_chainDoc (d : Dialect) : (first : Bool) → (es : List HavingEntry) →
      (HavingEntry.chainDoc d first es).Spread ∧
        ((HavingEntry.chainDoc d first es).Named ∨ (HavingEntry.chainDoc d first es).Led)
  | _, [] => ⟨trivial, .inl Doc.named_empty⟩
  | first, ⟨connective, predicate⟩ :: rest => by
      obtain ⟨hrest, hbegin⟩ := HavingEntry.spread_chainDoc d false rest
      have hword : (if first then Doc.word "HAVING" else connective.doc).Named := by
        split <;> simp [Connective.doc]
      have htail : (predicate.doc d ++ HavingEntry.chainDoc d false rest).Spread :=
        ⟨Predicate.spread_doc d predicate, hrest, .inr hbegin⟩
      have hled : (" " : String).toList ≠ [] := by decide
      rw [HavingEntry.chainDoc]
      exact ⟨(Doc.named_word _ _).append_spread (hword.append_spread
        ((Doc.named_word _ _).append_spread htail)), .inr hled⟩

end

end SelectSql
