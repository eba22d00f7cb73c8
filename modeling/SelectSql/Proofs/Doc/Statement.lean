import SelectSql.Proofs.Doc.Clauses

/-!
# SelectSql.Proofs.Doc.Statement

The tree of a query, for an engine; it follows the recursion of `Query.write`.

Main statements: writing a query gives the text of its tree and binds its values
(`Query.writes`), and the leaves of the tree are the leaves of the query
(`Query.leaves_doc`).
-/

namespace SelectSql

/-! ## Trees -/

/-- The name that follows a source. -/
def Doc.suffix (asName : Option String) : Doc :=
  match asName with
  | some a => Doc.space ++ Doc.name a
  | none => .empty

mutual

/-- The tree of a query. -/
def Query.doc (d : Dialect) : Query → Doc
  | ⟨source, projection, joins, conditions, grouping, ordering⟩ =>
    Doc.clauses [Doc.word "SELECT " ++ projection.doc, Doc.word "FROM " ++ source.doc d,
      Doc.sep Doc.space (Join.docs d joins),
      .headed "WHERE " (by decide) (Predicate.conjunctionDoc d conditions),
      grouping.doc d, OrderTerm.clauseDoc ordering]

/-- The tree of a source. -/
def Source.doc (d : Dialect) : Source → Doc
  | .table name asName => .leaf (.table name) ++ Doc.suffix asName
  | .values rows aliases name =>
    Doc.word "VALUES" ++ (.parens (Doc.word "\n" ++
      (Doc.sep (Doc.word ",\n") (rows.map Source.rowDoc) ++ Doc.word "\n")) ++
      match aliases with
      | some names => Doc.asWord ++ (Doc.name name ++
          .parens (Doc.sep (Doc.word ",") (names.map Doc.name)))
      | none => .empty)
  | .query q asName => .parens (q.doc d) ++ Doc.suffix asName

/-- The tree of what is joined. -/
def JoinTarget.doc (d : Dialect) : JoinTarget → Doc
  | .table name => .leaf (.table name)
  | .query q => .parens (q.doc d)

/-- The tree of a join. -/
def Join.doc (d : Dialect) : Join → Doc
  | ⟨target, kind, conditions, asName⟩ =>
    .collapsed (.own kind.keyword (by cases kind <;> decide) ++ (Doc.word " JOIN " ++
      (target.doc d ++ (Doc.space ++ (Doc.name asName ++ JoinTerm.clauseDoc conditions)))))

/-- The trees of joins. -/
def Join.docs (d : Dialect) : List Join → List Doc
  | [] => []
  | j :: js => j.doc d :: Join.docs d js

/-- The tree of a predicate inside a larger condition. -/
def Predicate.doc (d : Dialect) : Predicate → Doc
  | .comparison column op value negated =>
    Doc.spaces (Doc.nots negated ++ [Doc.name column, op.doc, value.doc])
  | .columnComparison column op other negated =>
    Doc.spaces (Doc.nots negated ++ [Doc.name column, op.doc, Doc.name other])
  | .nullCheck column negated =>
    Doc.spaces ([Doc.name column, Doc.word "IS"] ++ (Doc.nots negated ++ [Doc.word "NULL"]))
  | .fullText column value negated =>
    Doc.spaces (Doc.nots negated ++
      [d.compareDoc column value.length, Doc.word "=", Value.doc (.text value)])
  | .pattern column value negated options =>
    Doc.spaces (d.likeParts column (.text value) options negated)
  | .inSet _ (.values []) negated =>
    Doc.spaces [Doc.word "1", Doc.word "=", if negated then Doc.word "1" else Doc.word "0"]
  | .inSet column source negated =>
    Doc.spaces ([Doc.name column] ++ (Doc.nots negated ++ [Doc.word "IN", .parens (source.doc d)]))
  | .anyOf ps => .parens (Doc.sep (Doc.word " OR ") (Predicate.docs d ps))

/-- The tree of the members of a set, or of the query that selects them. -/
def SetSource.doc (d : Dialect) : SetSource → Doc
  | .values vs => Doc.sep Doc.comma (vs.map Value.doc)
  | .query q => q.doc d

/-- The trees of predicates. -/
def Predicate.docs (d : Dialect) : List Predicate → List Doc
  | [] => []
  | p :: ps => p.doc d :: Predicate.docs d ps

/-- The tree of predicates combined with AND. -/
def Predicate.conjunctionDoc (d : Dialect) : List Predicate → Doc
  | [] => .empty
  | [.anyOf ps] => Doc.sep (Doc.word " OR ") (Predicate.docs d ps)
  | p :: ps => Doc.sep (Doc.word " AND ") (p.doc d :: Predicate.docs d ps)

/-- The tree of the GROUP BY and HAVING clauses. -/
def Grouping.doc (d : Dialect) : Grouping → Doc
  | ⟨columns, having⟩ =>
    if columns.isEmpty then .empty
    else Doc.word "GROUP BY " ++ (Doc.sep Doc.comma (columns.map Doc.name) ++
      HavingEntry.chainDoc d true having)

/-- The tree of the chain of HAVING predicates. -/
def HavingEntry.chainDoc (d : Dialect) : Bool → List HavingEntry → Doc
  | _, [] => .empty
  | first, ⟨connective, predicate⟩ :: rest =>
    Doc.space ++ ((if first then Doc.word "HAVING" else connective.doc) ++ (Doc.space ++
      (predicate.doc d ++ HavingEntry.chainDoc d false rest)))

end

/-! ## Putting clauses together -/

theorem isEmpty_toList (s : String) : s.toList.isEmpty = s.isEmpty := by
  rw [Bool.eq_iff_iff]
  simp

/-- What is put together from texts is not empty if the first text is not. -/
theorem intercalate_ne_nil {s : String} (h : s.toList ≠ []) (rest : List String) :
    (" ".intercalate (s :: rest)).toList ≠ [] := by
  rw [String.toList_intercalate, List.map_cons]
  cases rest with
  | nil => simpa using h
  | cons t rest => simp [List.intercalate_cons_cons]

/-- The clauses of a statement, put together one by one from the last. -/
theorem toList_intercalate_clauses (clauses : List String) :
    (" ".intercalate ((clauses.map Text.trim).filter fun c => !c.isEmpty)).toList =
      clauses.foldr (fun c rest => spaced ' ' (Text.trimChars c.toList) rest) [] := by
  induction clauses with
  | nil => rfl
  | cons c clauses ih =>
      rw [List.foldr_cons, ← ih, List.map_cons, List.filter_cons, ← isEmpty_toList,
        Text.toList_trim, spaced]
      cases hc : (Text.trimChars c.toList).isEmpty with
      | true => simp
      | false =>
          have hne : ∀ s ∈ (clauses.map Text.trim).filter (fun c => !c.isEmpty),
              s.toList ≠ [] := by
            intro s hs
            simpa [← isEmpty_toList] using (List.mem_filter.1 hs).2
          cases hrest : (clauses.map Text.trim).filter (fun c => !c.isEmpty) with
          | nil => simp
          | cons s rest =>
              rw [hrest] at hne
              have hs := intercalate_ne_nil (hne s (by simp)) rest
              simp only [Bool.not_false, if_true, Bool.false_eq_true, if_false,
                List.isEmpty_eq_false_iff.2 hs]
              rw [String.intercalate_cons_cons]
              simp

/-- The text of a statement is that of its clauses. -/
theorem Query.toList_assemble (p s j c g o : String) :
    (Query.assemble p s j c g o).toList =
      spaced ' ' (Text.trimChars ("SELECT ".toList ++ p.toList))
        (spaced ' ' (Text.trimChars ("FROM ".toList ++ s.toList))
          (spaced ' ' (Text.trimChars j.toList)
            (spaced ' ' (Text.trimChars (under "WHERE ".toList c.toList))
              (spaced ' ' (Text.trimChars g.toList)
                (spaced ' ' (Text.trimChars o.toList) []))))) := by
  have hwhere : (if c.isEmpty then "" else "WHERE " ++ c).toList =
      under "WHERE ".toList c.toList := by
    rw [under, isEmpty_toList]
    split <;> simp
  rw [Query.assemble, toList_intercalate_clauses]
  simp only [List.foldr_cons, List.foldr_nil, String.toList_append, hwhere]

/-! ## Writing follows the tree -/

@[simp] theorem Doc.values_suffix (asName : Option String) : (Doc.suffix asName).values = [] := by
  cases asName <;> simp [Doc.suffix, Doc.empty]

/-- The tree of a test whether a column is in a set. -/
def Doc.membership (column : String) (negated : Bool) (a : Doc) : Doc :=
  Doc.spaces ([Doc.name column] ++ (Doc.nots negated ++ [Doc.word "IN", .parens a]))

theorem Doc.text_membership (r : Rendering) (k : Nat) (column : String) (negated : Bool)
    (a : Doc) :
    (Doc.membership column negated a).text r k = (column ++ " " ++ Predicate.membership negated ++
      " (" ++ String.ofList (a.text r k) ++ ")").toList := by
  cases negated <;>
    simp [Doc.membership, Doc.spaces, Doc.nots, Doc.texts, Predicate.membership,
      List.intercalate_cons_cons]

theorem Doc.values_membership (column : String) (negated : Bool) (a : Doc) :
    (Doc.membership column negated a).values = a.values := by
  cases negated <;> simp [Doc.membership, Doc.spaces, Doc.nots]

/-- A membership test follows the tree of its set. -/
theorem Doc.writes_membership {r : Rendering} {w : Writing String} {a : Doc} (hw : Writes r w a)
    (column : String) (negated : Bool) :
    Writes r (do
        let s ← w
        return column ++ " " ++ Predicate.membership negated ++ " (" ++ s ++ ")")
      (Doc.membership column negated a) := by
  intro d k hk
  refine Yields.cast (Yields.bind hk (hw d k hk) fun _ _ => Yields.done ?_) ?_
  · rw [Doc.text_membership]
  · rw [Doc.values_membership, List.append_nil]

mutual

/-- **Writing a query gives the text of its tree.** -/
theorem Query.writes (r : Rendering) : (q : Query) → Writes r (q.write r) (q.doc r.dialect)
  | ⟨source, projection, joins, conditions, grouping, ordering⟩ => by
      intro d k hk
      rw [Query.write, Query.doc]
      refine Yields.cast (Yields.bind hk (Projection.writes r projection d k hk) fun d₁ h₁ =>
        Yields.bind h₁ (Source.writes r source d₁ _ h₁) fun d₂ h₂ =>
        Yields.bind h₂ (Join.writesAll r joins d₂ _ h₂) fun d₃ h₃ =>
        Yields.bind h₃ (Predicate.writesConjunction r conditions d₃ _ h₃) fun d₄ h₄ =>
        Yields.bind h₄ (Grouping.writes r grouping d₄ _ h₄) fun _ _ => Yields.done ?_) ?_
      · rw [Query.toList_assemble]
        simp [Doc.text_clauses_cons, Doc.text_clauses_nil, Doc.text_headed,
          OrderTerm.text_clauseDoc, Function.comp_def]
      · simp [OrderTerm.values_clauseDoc]

/-- The text of a source. -/
theorem Source.writes (r : Rendering) : (s : Source) → Writes r (s.write r) (s.doc r.dialect)
  | .table name asName => by
      cases asName <;> rw [Source.write, Source.doc] <;>
        exact Writes.pure (fun k => by simp [Doc.suffix, Doc.empty])
          (by simp)
  | .values rows aliases name => by
      intro d k hk
      cases aliases <;> rw [Source.write, Source.doc] <;>
        exact Yields.cast (Yields.bind hk (Source.writesAll_writeRows r rows d k hk) fun _ _ =>
          Yields.done (by simp [Function.comp_def, Doc.empty, Doc.texts_name]))
          (by simp [Doc.empty, List.flatMap_map])
  | .query q asName => by
      intro d k hk
      cases asName <;> rw [Source.write, Source.doc] <;>
        exact Yields.cast (Yields.bind hk (Query.writes r q d k hk) fun _ _ =>
          Yields.done (by simp [Doc.suffix, Doc.empty])) (by simp)

theorem JoinTarget.writes (r : Rendering) :
    (t : JoinTarget) → Writes r (t.write r) (t.doc r.dialect)
  | .table name => by
      rw [JoinTarget.write, JoinTarget.doc]
      exact Writes.pure (fun k => by simp) rfl
  | .query q => by
      intro d k hk
      rw [JoinTarget.write, JoinTarget.doc]
      exact Yields.cast (Yields.bind hk (Query.writes r q d k hk) fun _ _ =>
        Yields.done (by simp)) (by simp)

theorem Join.writes (r : Rendering) : (j : Join) → Writes r (j.write r) (j.doc r.dialect)
  | ⟨target, kind, conditions, asName⟩ => by
      intro d k hk
      rw [Join.write, Join.doc]
      refine Yields.cast (Yields.bind hk (JoinTarget.writes r target d k hk) fun _ _ =>
        Yields.done ?_) (by simp [JoinTerm.values_clauseDoc])
      rw [Fragment.collapse]
      simp [JoinTerm.text_clauseDoc]

theorem Join.writesAll (r : Rendering) :
    (js : List Join) → WritesAll r (Join.writeAll r js) (Join.docs r.dialect js)
  | [] => WritesAll.nil r
  | j :: js => WritesAll.cons (Join.writes r j) (Join.writesAll r js)

theorem Predicate.writes (r : Rendering) :
    (p : Predicate) → Writes r (p.write r) (p.doc r.dialect)
  | .comparison column op value negated => by
      intro d k hk
      rw [Predicate.write, Predicate.doc]
      exact Yields.cast (Yields.bind hk (Yields.bindValue hk value) fun _ _ => Yields.done (by
        cases negated <;> simp [Doc.spaces, Doc.nots, Doc.texts, Predicate.not, Operator.doc,
          Value.doc, List.intercalate_cons_cons]))
        (by cases negated <;> simp [Doc.spaces, Doc.nots, Operator.doc, Value.doc])
  | .columnComparison column op other negated => by
      rw [Predicate.write, Predicate.doc]
      refine Writes.pure (fun k => ?_) ?_
      · cases negated <;> simp [Doc.spaces, Doc.nots, Doc.texts, Predicate.not, Operator.doc,
          List.intercalate_cons_cons]
      · cases negated <;> simp [Doc.spaces, Doc.nots, Operator.doc]
  | .nullCheck column negated => by
      rw [Predicate.write, Predicate.doc]
      refine Writes.pure (fun k => ?_) ?_
      · cases negated <;> simp [Doc.spaces, Doc.nots, Doc.texts, List.intercalate_cons_cons]
      · cases negated <;> simp [Doc.spaces, Doc.nots]
  | .fullText column value negated => by
      intro d k hk
      rw [Predicate.write, Predicate.doc]
      exact Yields.cast (Yields.bind hk (Yields.bindValue hk (.text value)) fun _ _ =>
        Yields.done (by
          cases negated <;> simp [Doc.spaces, Doc.nots, Doc.texts, Predicate.not, Value.doc,
            List.intercalate_cons_cons]))
        (by cases negated <;> simp [Doc.spaces, Doc.nots, Value.doc])
  | .pattern column value negated options => by
      intro d k hk
      rw [Predicate.write, Predicate.doc]
      refine Yields.cast (Yields.bind hk (Yields.bindValue hk (.text value)) fun _ _ =>
        Yields.done (Dialect.text_likeParts r k column (.text value) options negated).symm) ?_
      rw [Doc.spaces, Doc.values_sep, Dialect.values_likeParts, List.append_nil]
  | .inSet column (.values []) negated => by
      rw [Predicate.write, Predicate.doc]
      refine Writes.pure (fun k => ?_) ?_
      · cases negated <;> simp [Doc.spaces, Doc.texts, List.intercalate_cons_cons]
      · cases negated <;> simp [Doc.spaces]
  | .inSet column (.values (v :: vs)) negated => by
      have hset := SetSource.writes r (.values (v :: vs))
      rw [Predicate.write, Predicate.doc]
      · exact Doc.writes_membership hset column negated
      all_goals simp
  | .inSet column (.query q) negated => by
      have hset := SetSource.writes r (.query q)
      rw [Predicate.write, Predicate.doc]
      · exact Doc.writes_membership hset column negated
      all_goals simp
  | .anyOf ps => by
      intro d k hk
      rw [Predicate.write, Predicate.doc]
      exact Yields.cast (Yields.bind hk (Predicate.writesAll r ps d k hk) fun _ _ =>
        Yields.done (by simp [Function.comp_def])) (by simp)

theorem SetSource.writes (r : Rendering) :
    (s : SetSource) → Writes r (s.write r) (s.doc r.dialect)
  | .values vs => by
      rw [SetSource.write, SetSource.doc]
      exact WritesAll.sep ", " (by decide) (r.writesAll_bindAll vs)
  | .query q => by
      rw [SetSource.write, SetSource.doc]
      exact Query.writes r q

theorem Predicate.writesAll (r : Rendering) :
    (ps : List Predicate) → WritesAll r (Predicate.writeAll r ps) (Predicate.docs r.dialect ps)
  | [] => WritesAll.nil r
  | p :: ps => WritesAll.cons (Predicate.writes r p) (Predicate.writesAll r ps)

theorem Predicate.writesConjunction (r : Rendering) :
    (ps : List Predicate) →
      Writes r (Predicate.writeConjunction r ps) (Predicate.conjunctionDoc r.dialect ps)
  | [] => Writes.pure (fun k => by simp [Predicate.conjunctionDoc, Doc.empty]) rfl
  | [p] => by
      have hp := WritesAll.sep " AND " (by decide)
        (WritesAll.cons (Predicate.writes r p) (WritesAll.nil r))
      cases p with
      | anyOf ps =>
          rw [Predicate.writeConjunction, Predicate.conjunctionDoc]
          exact WritesAll.sep " OR " (by decide) (Predicate.writesAll r ps)
      | _ =>
          rw [Predicate.writeConjunction, Predicate.conjunctionDoc]
          · exact hp
          all_goals simp
  | p :: q :: ps => by
      have hps := WritesAll.sep " AND " (by decide)
        (WritesAll.cons (Predicate.writes r p) (Predicate.writesAll r (q :: ps)))
      rw [Predicate.writeConjunction, Predicate.conjunctionDoc]
      · exact hps
      all_goals simp

theorem Grouping.writes (r : Rendering) :
    (g : Grouping) → Writes r (g.write r) (g.doc r.dialect)
  | ⟨columns, having⟩ => by
      intro d k hk
      rw [Grouping.write, Grouping.doc]
      split
      · -- without columns the predicates are dropped, and nothing is bound for them
        cases having with
        | nil => exact Yields.done (by simp [Doc.empty])
        | cons e es => exact Yields.note_bind _ hk fun _ _ => Yields.done (by simp [Doc.empty])
      · have hnames : (columns.map Doc.name).flatMap Doc.values = [] := by simp
        exact Yields.cast (Yields.bind hk (HavingEntry.writesChain r true having d k hk)
          fun _ _ => Yields.done (by simp [Doc.texts_name, hnames, -List.length_flatMap]))
          (by simp [hnames])

theorem HavingEntry.writesChain (r : Rendering) : (first : Bool) → (es : List HavingEntry) →
      Writes r (HavingEntry.writeChain r first es) (HavingEntry.chainDoc r.dialect first es)
  | _, [] => Writes.pure (fun k => by simp [HavingEntry.chainDoc, Doc.empty]) rfl
  | first, ⟨connective, predicate⟩ :: rest => by
      intro d k hk
      rw [HavingEntry.writeChain, HavingEntry.chainDoc]
      exact Yields.cast (Yields.bind hk (Predicate.writes r predicate d k hk) fun d₁ h₁ =>
        Yields.bind h₁ (HavingEntry.writesChain r false rest d₁ _ h₁) fun _ _ =>
          Yields.done (by cases first <;> simp [Connective.doc]))
        (by cases first <;> simp [Connective.doc])

end

/-! ## The leaves of the tree -/

/-- Trees with a leaf each have these leaves. -/
theorem Doc.flatMap_leaves_map {α : Type} {f : α → Doc} {g : α → Leaf}
    (h : ∀ x, (f x).leaves = [g x]) (xs : List α) :
    (xs.map f).flatMap Doc.leaves = xs.map g := by
  simp only [List.flatMap_map, h, ← List.map_eq_flatMap]

theorem Column.leaves_doc (c : Column) : c.doc.leaves = c.leaves := by
  cases c with
  | raw sql params standalone => rfl
  | named name table asName => cases table <;> cases asName <;> rfl
  | aggregate function operand asName => cases asName <;> rfl

theorem Projection.leaves_doc (p : Projection) :
    p.doc.leaves = p.columns.flatMap Column.leaves := by
  rcases p with ⟨columns, distinct⟩
  rw [Projection.doc]
  cases columns with
  | nil => cases distinct <;> rfl
  | cons c cs =>
      cases distinct <;> simp [Doc.empty, List.flatMap_map, Column.leaves_doc]

theorem JoinTerm.leaves_clauseDoc (terms : List JoinTerm) :
    (JoinTerm.clauseDoc terms).leaves = terms.flatMap JoinTerm.leaves := by
  have hterm (t : JoinTerm) : t.doc.leaves = t.leaves := by
    rcases t with ⟨condition, connective⟩
    cases connective <;> rfl
  have hterms : (Doc.concat (terms.map JoinTerm.doc)).leaves = terms.flatMap JoinTerm.leaves := by
    induction terms with
    | nil => rfl
    | cons t terms ih => simp [Doc.concat, ih, hterm]
  rw [JoinTerm.clauseDoc]
  split
  · next hnil => simp [List.isEmpty_iff.1 hnil, Doc.empty]
  · simp [hterms]

theorem OrderTerm.leaves_clauseDoc (terms : List OrderTerm) :
    (OrderTerm.clauseDoc terms).leaves = terms.map fun t => .text t.column := by
  have hterm (t : OrderTerm) : t.doc.leaves = [.text t.column] := by
    rw [OrderTerm.doc]
    split <;> rfl
  rw [OrderTerm.clauseDoc]
  split
  · next hnil => simp [List.isEmpty_iff.1 hnil, Doc.empty]
  · rw [Doc.leaves_append, Doc.leaves_sep, Doc.flatMap_leaves_map hterm]
    rfl

theorem Source.leaves_rowDoc (rows : List (List Value)) :
    (rows.map Source.rowDoc).flatMap Doc.leaves = rows.flatten.map .value := by
  induction rows with
  | nil => rfl
  | cons row rows ih =>
      rw [List.map_cons, List.flatMap_cons, ih, Source.rowDoc, Doc.leaves_parens, Doc.leaves_sep,
        Doc.flatMap_leaves_map fun _ => rfl, List.flatten_cons, List.map_append]

@[simp] theorem Doc.leaves_suffix (asName : Option String) :
    (Doc.suffix asName).leaves = asName.toList.map .text := by
  cases asName <;> rfl

@[simp] theorem Doc.leaves_nots (negated : Bool) :
    (Doc.nots negated).flatMap Doc.leaves = [] := by
  cases negated <;> rfl

@[simp] theorem Doc.leaves_spaces (parts : List Doc) :
    (Doc.spaces parts).leaves = parts.flatMap Doc.leaves :=
  Doc.leaves_sep _ _ parts

mutual

/-- **The leaves of the tree are the leaves of the query.** -/
theorem Query.leaves_doc (d : Dialect) : (q : Query) → (q.doc d).leaves = q.leaves
  | ⟨source, projection, joins, conditions, grouping, ordering⟩ => by
      rw [Query.doc, Query.leaves, Doc.leaves_clauses]
      simp [Projection.leaves_doc, Source.leaves_doc d source, Join.leaves_docs d joins,
        Predicate.leaves_conjunctionDoc d conditions, Grouping.leaves_doc d grouping,
        OrderTerm.leaves_clauseDoc, Doc.leaves]

theorem Source.leaves_doc (d : Dialect) : (s : Source) → (s.doc d).leaves = s.leaves
  | .table name asName => by
      rw [Source.doc, Source.leaves]
      simp [Doc.leaves]
  | .values rows aliases name => by
      cases aliases <;> rw [Source.doc, Source.leaves] <;>
        simp [Doc.empty, Source.leaves_rowDoc, Doc.flatMap_leaves_map Doc.leaves_name]
  | .query q asName => by
      rw [Source.doc, Source.leaves]
      simp [Query.leaves_doc d q]

theorem JoinTarget.leaves_doc (d : Dialect) : (t : JoinTarget) → (t.doc d).leaves = t.leaves
  | .table name => by
      rw [JoinTarget.doc, JoinTarget.leaves]
      rfl
  | .query q => by
      rw [JoinTarget.doc, JoinTarget.leaves]
      exact Query.leaves_doc d q

theorem Join.leaves_doc (d : Dialect) : (j : Join) → (j.doc d).leaves = j.leaves
  | ⟨target, kind, conditions, asName⟩ => by
      rw [Join.doc, Join.leaves]
      simp [Doc.leaves, JoinTarget.leaves_doc d target, JoinTerm.leaves_clauseDoc]

theorem Join.leaves_docs (d : Dialect) :
    (js : List Join) → (Join.docs d js).flatMap Doc.leaves = Join.leavesAll js
  | [] => rfl
  | j :: js => by
      rw [Join.docs, Join.leavesAll, List.flatMap_cons, Join.leaves_doc d j, Join.leaves_docs d js]

theorem Predicate.leaves_doc (d : Dialect) : (p : Predicate) → (p.doc d).leaves = p.leaves
  | .comparison column op value negated => by
      rw [Predicate.doc, Predicate.leaves]
      simp [Operator.doc, Value.doc, Doc.leaves]
  | .columnComparison column op other negated => by
      rw [Predicate.doc, Predicate.leaves]
      simp [Operator.doc, Doc.leaves]
  | .nullCheck column negated => by
      rw [Predicate.doc, Predicate.leaves]
      simp
  | .fullText column value negated => by
      rw [Predicate.doc, Predicate.leaves]
      cases d <;> cases negated <;> rfl
  | .pattern column value negated options => by
      rw [Predicate.doc, Predicate.leaves, Doc.leaves_spaces]
      exact Dialect.leaves_likeParts d column (.text value) options negated
  | .inSet column (.values []) negated => by
      rw [Predicate.doc, Predicate.leaves]
      cases negated <;> rfl
  | .inSet column (.values (v :: vs)) negated => by
      have hset := SetSource.leaves_doc d (.values (v :: vs))
      rw [Predicate.doc, Predicate.leaves]
      · simp [hset]
      all_goals simp
  | .inSet column (.query q) negated => by
      have hset := SetSource.leaves_doc d (.query q)
      rw [Predicate.doc, Predicate.leaves]
      · simp [hset]
      all_goals simp
  | .anyOf ps => by
      rw [Predicate.doc, Predicate.leaves]
      simp [Predicate.leaves_docs d ps]

theorem SetSource.leaves_doc (d : Dialect) : (s : SetSource) → (s.doc d).leaves = s.leaves
  | .values vs => by
      rw [SetSource.doc, SetSource.leaves, Doc.leaves_sep]
      exact Doc.flatMap_leaves_map (fun _ => rfl) vs
  | .query q => by
      rw [SetSource.doc, SetSource.leaves]
      exact Query.leaves_doc d q

theorem Predicate.leaves_docs (d : Dialect) :
    (ps : List Predicate) → (Predicate.docs d ps).flatMap Doc.leaves = Predicate.leavesAll ps
  | [] => rfl
  | p :: ps => by
      rw [Predicate.docs, Predicate.leavesAll, List.flatMap_cons, Predicate.leaves_doc d p,
        Predicate.leaves_docs d ps]

theorem Predicate.leaves_conjunctionDoc (d : Dialect) :
    (ps : List Predicate) → (Predicate.conjunctionDoc d ps).leaves = Predicate.leavesAll ps
  | [] => rfl
  | [p] => by
      have hp := Predicate.leaves_doc d p
      rw [Predicate.leavesAll, Predicate.leavesAll, List.append_nil, ← hp]
      cases p with
      | anyOf ps =>
          rw [Predicate.conjunctionDoc, Predicate.doc]
          rfl
      | _ =>
          rw [Predicate.conjunctionDoc]
          · rfl
          · simp
  | p :: q :: ps => by
      rw [Predicate.conjunctionDoc]
      · rw [Doc.leaves_sep, List.flatMap_cons, Predicate.leaves_doc d p,
          Predicate.leaves_docs d (q :: ps), ← Predicate.leavesAll]
      · simp

theorem Grouping.leaves_doc (d : Dialect) : (g : Grouping) → (g.doc d).leaves = g.leaves
  | ⟨columns, having⟩ => by
      rw [Grouping.doc, Grouping.leaves]
      split
      · rfl
      · simp [Doc.flatMap_leaves_map Doc.leaves_name, HavingEntry.leaves_chainDoc d true having]

theorem HavingEntry.leaves_chainDoc (d : Dialect) : (first : Bool) → (es : List HavingEntry) →
      (HavingEntry.chainDoc d first es).leaves = HavingEntry.leavesAll es
  | _, [] => rfl
  | first, ⟨connective, predicate⟩ :: rest => by
      rw [HavingEntry.chainDoc, HavingEntry.leavesAll]
      cases first <;> simp [Connective.doc, Doc.leaves, Predicate.leaves_doc d predicate,
        HavingEntry.leaves_chainDoc d false rest]

end

/-! ## Compiling -/

/-- What compiling gives, for any query: the text and the values of its tree. -/
theorem Query.compile_eq (q : Query) (d : Dialect) :
    q.compile d = ⟨String.ofList ((q.doc d).text ⟨d, .bound⟩ 0), (q.doc d).values⟩ := by
  have h := Query.writes ⟨d, .bound⟩ q {} 0 fun _ => rfl
  have hvalue := h.value
  have hbound := h.bound
  rw [Query.compile, Writing.compile, ← hvalue]
  exact congrArg _ hbound

/-- The inline text of any query is that of its tree. -/
theorem Query.inline_eq (q : Query) (d : Dialect) :
    q.inline d = String.ofList ((q.doc d).text ⟨d, .inline⟩ 0) :=
  (Query.writes ⟨d, .inline⟩ q {} 0 fun _ => rfl).value

end SelectSql
