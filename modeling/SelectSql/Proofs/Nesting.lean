import SelectSql.Proofs.Alternatives
import SelectSql.Proofs.Doc.Statement
import SelectSql.Proofs.Edits
import SelectSql.Proofs.Numbering

/-!
# SelectSql.Proofs.Nesting

A nested query is written as it is written alone, with its placeholders numbered behind the
values that stand before it, and its values are bound there in one row.

Design points:

* **A tree holds a part** (`Doc.Holds`) if the text of the part stands in its text behind
  some number of values. What a call adds to a query is such a part.
* **Trimming stops at the part**: a part that is trimmed itself is left whole by the trimming
  of its clause.

Main statement: `Query.written_alike`.
-/

namespace SelectSql

/-! ## Parts of trees -/

/-- The part stands in the tree behind the values `before`, and its text is numbered from
there; the values `after` follow its own. -/
structure Doc.Holds (a part : Doc) (before after : List Value) : Prop where
  values : a.values = before ++ (part.values ++ after)
  text : ∀ r k, part.text r (k + before.length) <:+: a.text r k

theorem infix_under {xs head ys : List Char} (h : xs <:+: ys) : xs <:+: under head ys := by
  unfold under
  split
  · next hnil =>
    rw [List.isEmpty_iff.1 hnil] at h
    exact h
  · exact h.trans (List.suffix_append head ys).isInfix

theorem infix_spaced_left (xs ys : List Char) : xs <:+: spaced ' ' xs ys := by
  unfold spaced
  split
  · next hnil =>
    rw [List.isEmpty_iff.1 hnil]
    exact List.nil_infix
  · split
    · exact List.infix_rfl
    · exact (List.prefix_append xs _).isInfix

theorem infix_spaced_right (xs ys : List Char) : ys <:+: spaced ' ' xs ys := by
  unfold spaced
  split
  · exact List.infix_rfl
  · split
    · next hnil =>
      rw [List.isEmpty_iff.1 hnil]
      exact List.nil_infix
    · exact ⟨xs ++ [' '], [], by simp⟩

theorem trimmed_spaced {xs ys : List Char} (hx : Text.Trimmed Text.isBlank xs)
    (hy : Text.Trimmed Text.isBlank ys) : Text.Trimmed Text.isBlank (spaced ' ' xs ys) := by
  rcases xs with _ | ⟨x, xs⟩
  · exact hy
  · rcases List.eq_nil_or_concat ys with rfl | ⟨ys, y, rfl⟩
    · exact hx
    · rw [List.concat_eq_append] at hy ⊢
      have hspaced : spaced ' ' (x :: xs) (ys ++ [y]) = (x :: xs ++ ' ' :: ys) ++ [y] := by
        simp [spaced]
      rw [hspaced]
      refine ⟨by simpa using hx.head, fun c hc => hy.last c ?_⟩
      rwa [List.getLast?_concat] at hc ⊢

namespace Doc

variable {a part inner : Doc} {before after before' after' : List Value}

/-- The last item of a list ends it. -/
theorem suffix_sep (s : String) (hs : s.toList.all isOwnChar = true) (as : List Doc) (part : Doc)
    (r : Rendering) (k : Nat) :
    part.text r (k + (as.flatMap Doc.values).length) <:+
      (sep (word s hs) (as ++ [part])).text r k := by
  induction as generalizing k with
  | nil => exact List.suffix_rfl
  | cons a as ih =>
      have hsep : sep (word s hs) (a :: as ++ [part]) =
          a ++ (word s hs ++ sep (word s hs) (as ++ [part])) := by
        cases as <;> rfl
      rw [hsep, text_append, text_append, values_word, List.length_nil, Nat.add_zero,
        List.flatMap_cons, List.length_append, ← Nat.add_assoc]
      exact (ih _).trans ((List.suffix_append _ _).trans (List.suffix_append _ _))

namespace Holds

theorem refl (a : Doc) : a.Holds a [] [] where
  values := by simp
  text _ _ := List.infix_rfl

theorem trans (h : a.Holds part before after) (hpart : part.Holds inner before' after') :
    a.Holds inner (before ++ before') (after' ++ after) where
  values := by simp [h.values, hpart.values]
  text r k := by
    have hinner := hpart.text r (k + before.length)
    rw [List.length_append, ← Nat.add_assoc]
    exact hinner.trans (h.text r k)

theorem headed (head : String) (plain : head.toList.all isOwnChar = true)
    (h : a.Holds part before after) : (Doc.headed head plain a).Holds part before after where
  values := h.values
  text r k := infix_under (h.text r k)

/-- The last item of a list. -/
theorem sep_concat (s : String) (hs : s.toList.all isOwnChar = true) (as : List Doc)
    (part : Doc) : (sep (word s hs) (as ++ [part])).Holds part (as.flatMap Doc.values) [] where
  values := by simp
  text r k := (suffix_sep s hs as part r k).isInfix

/-- A clause of a statement, if the part is trimmed. -/
theorem clauses (htrim : ∀ r k, Text.Trimmed Text.isBlank (part.text r k))
    (h : a.Holds part before after) (as bs : List Doc) :
    (Doc.clauses (as ++ a :: bs)).Holds part (as.flatMap Doc.values ++ before)
      (after ++ bs.flatMap Doc.values) := by
  induction as with
  | nil =>
      refine ⟨by simp [h.values], fun r k => ?_⟩
      rw [List.nil_append, text_clauses_cons]
      exact ((htrim r _).infix_trimBy (h.text r k)).trans (infix_spaced_left _ _)
  | cons c as ih =>
      refine ⟨by simp [h.values], fun r k => ?_⟩
      have hrest := ih.text r (k + c.values.length)
      rw [List.flatMap_cons, List.append_assoc, List.length_append, ← Nat.add_assoc,
        List.cons_append, text_clauses_cons]
      exact hrest.trans (infix_spaced_right _ _)

end Holds

/-- Clauses that are put together are trimmed. -/
theorem trimmed_clauses (r : Rendering) (k : Nat) (as : List Doc) :
    Text.Trimmed Text.isBlank ((Doc.clauses as).text r k) := by
  induction as generalizing k with
  | nil => exact ⟨by simp [text_clauses_nil], by simp [text_clauses_nil]⟩
  | cons a as ih =>
      obtain ⟨-, -, -, -, -, htrim⟩ := Text.exists_trimBy Text.isBlank (a.text r k)
      rw [text_clauses_cons]
      exact trimmed_spaced htrim (ih _)

end Doc

/-! ## What calls add to a statement -/

namespace Predicate

theorem docs_append (d : Dialect) (ps qs : List Predicate) :
    docs d (ps ++ qs) = docs d ps ++ docs d qs := by
  induction ps with
  | nil => rfl
  | cons p ps ih => rw [List.cons_append, docs, docs, ih, List.cons_append]

/-- Unless it is a group of alternatives, the last condition stands in a row with the others. -/
theorem conjunctionDoc_concat (d : Dialect) (ps : List Predicate) {p : Predicate}
    (hp : p.isAnyOf = false) :
    conjunctionDoc d (ps ++ [p]) = Doc.sep (Doc.word " AND ") (docs d ps ++ [p.doc d]) := by
  have hdocs : docs d ps ++ [p.doc d] = docs d (ps ++ [p]) := (docs_append d ps [p]).symm
  rw [hdocs]
  cases ps with
  | nil => cases p <;> first | rfl | contradiction
  | cons q ps =>
      rw [List.cons_append, conjunctionDoc, docs]
      simp

theorem values_conjunctionDoc (d : Dialect) (ps : List Predicate) :
    (conjunctionDoc d ps).values = (docs d ps).flatMap Doc.values := by
  rw [Doc.values, leaves_conjunctionDoc, ← leaves_docs d, List.flatMap_assoc]
  rfl

end Predicate

theorem Join.docs_append (d : Dialect) (js js' : List Join) :
    Join.docs d (js ++ js') = Join.docs d js ++ Join.docs d js' := by
  induction js with
  | nil => rfl
  | cons j js ih => rw [List.cons_append, docs, docs, ih, List.cons_append]

namespace Query

/-- The source of a statement stands behind the values of its columns. -/
theorem exists_holds_source (d : Dialect) (host q : Query) (name : String)
    (asName : Option String) :
    ∃ before after, (doc d { host with source := .table name asName }).values = before ++ after ∧
      (doc d { host with source := .query q asName }).Holds
        (Doc.word "FROM " ++ .parens (q.doc d)) before after := by
  obtain ⟨source, projection, joins, conditions, grouping, ordering⟩ := host
  have hfrom : (Doc.word "FROM " ++ (Source.query q asName).doc d).Holds
      (Doc.word "FROM " ++ .parens (q.doc d)) [] [] := by
    rw [Source.doc]
    refine ⟨by simp, fun r k => ⟨[], (Doc.suffix asName).text r (k + (q.doc d).values.length), ?_⟩⟩
    simp
  have htrim (r : Rendering) (k : Nat) : Text.Trimmed Text.isBlank
      ((Doc.word "FROM " ++ .parens (q.doc d)).text r k) := by
    have htext : (Doc.word "FROM " ++ .parens (q.doc d)).text r k =
        'F' :: ("ROM (".toList ++ (q.doc d).text r k) ++ [')'] := by simp
    rw [htext]
    exact Text.Trimmed.between (by decide) (by decide) _
  have hclauses := hfrom.clauses htrim [Doc.word "SELECT " ++ projection.doc]
    [Doc.sep Doc.space (Join.docs d joins),
      .headed "WHERE " (by decide) (Predicate.conjunctionDoc d conditions), grouping.doc d,
      OrderTerm.clauseDoc ordering]
  refine ⟨_, _, ?_, hclauses⟩
  simp [doc, Source.doc]

/-- A condition that is added last, and ends with a sign, stands in the WHERE clause behind
the values of the conditions there are. -/
theorem exists_holds_condition (d : Dialect) (host : Query) {p : Predicate}
    (hp : p.isAnyOf = false) {c : Char} (hc : Text.isBlank c = false)
    (hend : ∀ r k, ∃ front, (p.doc d).text r k = front ++ [c]) :
    ∃ before after, (host.doc d).values = before ++ after ∧
      (doc d { host with conditions := host.conditions ++ [p] }).Holds (p.doc d) before after := by
  obtain ⟨source, projection, joins, conditions, grouping, ordering⟩ := host
  have hconjunction :=
    Doc.Holds.sep_concat " AND " (by decide) (Predicate.docs d conditions) (p.doc d)
  have htrim : ∀ r k, Text.Trimmed Text.isBlank ((Doc.headed "WHERE " (by decide)
      (Doc.sep (Doc.word " AND ") (Predicate.docs d conditions ++ [p.doc d]))).text r k) := by
    intro r k
    obtain ⟨front, hfront⟩ :=
      Doc.suffix_sep " AND " (by decide) (Predicate.docs d conditions) (p.doc d) r k
    obtain ⟨front', hfront'⟩ :=
      hend r (k + ((Predicate.docs d conditions).flatMap Doc.values).length)
    have hunder : under "WHERE ".toList (front ++ front' ++ [c]) =
        'W' :: ("HERE ".toList ++ (front ++ front')) ++ [c] := by simp [under]
    rw [Doc.text, ← hfront, hfront', ← List.append_assoc, hunder]
    exact Text.Trimmed.between (by decide) hc _
  have hclauses := (Doc.Holds.refl _).clauses htrim
    [Doc.word "SELECT " ++ projection.doc, Doc.word "FROM " ++ source.doc d,
      Doc.sep Doc.space (Join.docs d joins)] [grouping.doc d, OrderTerm.clauseDoc ordering]
  have hdoc := hclauses.trans (hconjunction.headed "WHERE " (by decide))
  rw [← Predicate.conjunctionDoc_concat d conditions hp] at hdoc
  refine ⟨_, _, ?_, hdoc⟩
  simp [doc, Predicate.values_conjunctionDoc]

/-- A join that is added last stands behind the values of the joins there are. -/
theorem exists_holds_join (d : Dialect) (host : Query) (j : Join) :
    ∃ before after, (host.doc d).values = before ++ after ∧
      (doc d { host with joins := host.joins ++ [j] }).Holds (j.doc d) before after := by
  obtain ⟨source, projection, joins, conditions, grouping, ordering⟩ := host
  have hjoins := Doc.Holds.sep_concat " " (by decide) (Join.docs d joins) (j.doc d)
  have htrim : ∀ r k, Text.Trimmed Text.isBlank ((j.doc d).text r k) := by
    intro r k
    obtain ⟨target, kind, conditions, asName⟩ := j
    rw [Join.doc, Doc.text_collapsed, Fragment.collapseChars]
    obtain ⟨-, -, -, -, -, htrim⟩ := Text.exists_trimBy Text.isBlank
      (Fragment.squeeze false (Fragment.scan (Doc.text r k _)))
    exact htrim
  have hclauses := hjoins.clauses htrim
    [Doc.word "SELECT " ++ projection.doc, Doc.word "FROM " ++ source.doc d]
    [.headed "WHERE " (by decide) (Predicate.conjunctionDoc d conditions), grouping.doc d,
      OrderTerm.clauseDoc ordering]
  have hdocs : Join.docs d joins ++ [j.doc d] = Join.docs d (joins ++ [j]) :=
    (Join.docs_append d joins [j]).symm
  rw [hdocs] at hclauses
  refine ⟨_, _, ?_, hclauses⟩
  simp [doc]

/-! ## Statements with a nested query -/

/-- The statement of `host'` is that of `host` with a text put in: the text is numbered
behind the values that stand before it, and the values `vs` are put in there. -/
def Inserts (d : Dialect) (host host' : Query) (vs : List Value) (text : Nat → String) : Prop :=
  ∃ before after, (host.compile d).params = before ++ after ∧
    (host'.compile d).params = before ++ (vs ++ after) ∧
    (text before.length).toList <:+: (host'.compile d).sql.toList

/-- What a tree holds is put into its statement. -/
theorem inserts_of_holds {d : Dialect} {host host' : Query} {part : Doc} {before after : List Value}
    {text : Nat → String} (hvalues : (host.doc d).values = before ++ after)
    (hholds : (host'.doc d).Holds part before after)
    (htext : ∀ k, part.text ⟨d, .bound⟩ k = (text k).toList) :
    host.Inserts d host' part.values text := by
  refine ⟨before, after, ?_, ?_, ?_⟩
  · rw [compile_eq]
    exact hvalues
  · rw [compile_eq]
    exact hholds.values
  · have hpart := hholds.text ⟨d, .bound⟩ 0
    rw [compile_eq, String.toList_ofList, ← htext]
    rwa [Nat.zero_add] at hpart

/-- The rows of a query in the place of a table are put into the FROM clause. -/
theorem inserts_source {d : Dialect} {q : Query} {text : Nat → String}
    (htext : ∀ k, String.ofList ((q.doc d).text ⟨d, .bound⟩ k) = text k)
    (host : Query) (name : String) (asName : Option String) :
    Inserts d { host with source := .table name asName } { host with source := .query q asName }
      (q.doc d).values fun k => "FROM (" ++ text k ++ ")" := by
  obtain ⟨before, after, hvalues, hholds⟩ := exists_holds_source d host q name asName
  have hparams : (Doc.word "FROM " ++ .parens (q.doc d)).values = (q.doc d).values := by simp
  rw [← hparams]
  refine inserts_of_holds hvalues hholds fun k => ?_
  simp [← htext]

/-- The rows of a query as a set are put into the WHERE clause. -/
theorem inserts_inSet {d : Dialect} {q : Query} {text : Nat → String}
    (htext : ∀ k, String.ofList ((q.doc d).text ⟨d, .bound⟩ k) = text k)
    (host : Query) (column : String) (negated : Bool) :
    ∃ host', host.call (.inSet negated column (.query q)) = .ok host' ∧
      host.Inserts d host' (q.doc d).values fun k =>
        column ++ " " ++ Predicate.membership negated ++ " (" ++ text k ++ ")" := by
  have hpush : Predicate.push .and (.inSet column (.query q) negated) host.conditions =
      host.conditions ++ [.inSet column (.query q) negated] :=
    Predicate.push_begin (.inr rfl) _
  have hcall : host.call (.inSet negated column (.query q)) = .ok
      { host with conditions := host.conditions ++ [.inSet column (.query q) negated] } := by
    rw [← hpush]
    rfl
  have hdoc : (Predicate.inSet column (.query q) negated).doc d =
      Doc.membership column negated (q.doc d) := by
    rw [Predicate.doc, SetSource.doc]
    · rfl
    · exact fun h => SetSource.noConfusion h
  have hend (r : Rendering) (k : Nat) : ∃ front,
      ((Predicate.inSet column (.query q) negated).doc d).text r k = front ++ [')'] := by
    rw [hdoc, Doc.text_membership, String.toList_append]
    exact ⟨_, rfl⟩
  obtain ⟨before, after, hvalues, hholds⟩ := exists_holds_condition d host
    (p := .inSet column (.query q) negated) rfl (by decide) hend
  rw [hdoc] at hholds
  refine ⟨_, hcall, ?_⟩
  rw [← Doc.values_membership column negated (q.doc d)]
  refine inserts_of_holds hvalues hholds fun k => ?_
  rw [Doc.text_membership, htext]

/-- A joined query is put into the JOIN clause, with its blanks collapsed. -/
theorem inserts_join {d : Dialect} {q : Query} {text : Nat → String}
    (htext : ∀ k, String.ofList ((q.doc d).text ⟨d, .bound⟩ k) = text k)
    (host : Query) {kind : JoinKind} (hkind : kind ≠ .cross) {on : ConditionSpec}
    {terms : List JoinTerm} (hon : on.resolve = .ok terms) (asName : String) :
    ∃ host', host.call (.join kind (.query q) on asName) = .ok host' ∧
      host.Inserts d host' (q.doc d).values fun k => Fragment.collapse
        (kind.keyword ++ " JOIN (" ++ text k ++ ") " ++ asName ++ JoinTerm.onClause terms) := by
  have hcall : host.call (.join kind (.query q) on asName) = .ok
      { host with joins := host.joins ++ [⟨.query q, kind, terms, asName⟩] } := by
    rw [call_eq, Call.resolve, if_neg hkind, hon]
    rfl
  obtain ⟨before, after, hvalues, hholds⟩ :=
    exists_holds_join d host ⟨.query q, kind, terms, asName⟩
  have hparams : (Join.doc d ⟨.query q, kind, terms, asName⟩).values = (q.doc d).values := by
    simp [Join.doc, JoinTarget.doc, JoinTerm.values_clauseDoc]
  refine ⟨_, hcall, ?_⟩
  rw [← hparams]
  refine inserts_of_holds hvalues hholds fun k => ?_
  simp [Join.doc, JoinTarget.doc, ← htext, JoinTerm.text_clauseDoc]

/-! ## Wrapped queries -/

theorem doc_wrap (d : Dialect) (q : Query) (asName : Option String) :
    (q.wrap asName).doc d = Doc.clauses [Doc.word "SELECT " ++ (Doc.empty ++ Doc.word "*"),
      Doc.word "FROM " ++ (.parens (q.doc d) ++ Doc.suffix asName), Doc.empty,
      .headed "WHERE " (by decide) Doc.empty, Doc.empty, Doc.empty] := by
  rw [wrap, ofSource, doc, Source.doc]
  rfl

/-- Only the name behind a source is trimmed. -/
theorem trimChars_from (text suffix : List Char) :
    Text.trimChars ("FROM ".toList ++ '(' :: (text ++ ')' :: suffix)) =
      "FROM (".toList ++ text ++ Text.trimChars (')' :: suffix) := by
  have hfront : ∀ c ∈ ("FROM (".toList ++ text).head?, Text.isBlank c = false := by
    intro c hc
    obtain rfl : 'F' = c := by simpa using hc
    decide
  exact Text.trimBy_append_cons hfront (by decide) suffix

theorem text_wrap (d : Dialect) (q : Query) (asName : Option String) :
    ((q.wrap asName).doc d).text ⟨d, .bound⟩ 0 =
      ("SELECT * FROM (" ++ String.ofList ((q.doc d).text ⟨d, .bound⟩ 0) ++
        Text.trim (")" ++ asName.elim "" (" " ++ ·))).toList := by
  have hselect : (Doc.word "SELECT " ++ (Doc.empty ++ Doc.word "*")).text ⟨d, .bound⟩ 0 =
      "SELECT *".toList := by simp [Doc.empty]
  have hvalues : (Doc.word "SELECT " ++ (Doc.empty ++ Doc.word "*")).values = [] := rfl
  have hfrom : (Doc.word "FROM " ++ (.parens (q.doc d) ++ Doc.suffix asName)).text ⟨d, .bound⟩ 0 =
      "FROM ".toList ++ '(' :: ((q.doc d).text ⟨d, .bound⟩ 0 ++
        ')' :: (asName.elim "" (" " ++ ·)).toList) := by
    cases asName <;> simp [Doc.suffix, Doc.empty]
  have hblank (k : Nat) : (Doc.clauses [Doc.empty, .headed "WHERE " (by decide) Doc.empty,
      Doc.empty, Doc.empty]).text ⟨d, .bound⟩ k = [] := rfl
  have htrim : Text.trimChars "SELECT *".toList = "SELECT *".toList := by decide
  rw [doc_wrap, Doc.text_clauses_cons, Doc.text_clauses_cons, hblank, hselect, hvalues,
    List.length_nil, Nat.add_zero, hfrom, trimChars_from, htrim]
  simp [spaced]

/-- The rows of a query as the source of another one. -/
theorem compile_wrap (d : Dialect) (q : Query) (asName : Option String) :
    (q.wrap asName).compile d = ⟨"SELECT * FROM (" ++ (q.compile d).sql ++
      Text.trim (")" ++ asName.elim "" (" " ++ ·)), (q.compile d).params⟩ := by
  have hvalues : ((q.wrap asName).doc d).values = (q.doc d).values := by
    rw [doc_wrap]
    simp [Doc.empty]
  rw [compile_eq, compile_eq, text_wrap, String.ofList_toList, hvalues]

/-! ## Collapsing around a nested query -/

/-- A statement is trimmed, as its clauses are. -/
theorem trimmed_text (d : Dialect) (r : Rendering) (k : Nat) (q : Query) :
    Text.Trimmed Text.isBlank ((q.doc d).text r k) := by
  obtain ⟨source, projection, joins, conditions, grouping, ordering⟩ := q
  rw [doc]
  exact Doc.trimmed_clauses r k _

/-- **In a JOIN clause the text of a balanced query is collapsed by itself.** -/
theorem collapse_join {d : Dialect} {q : Query} (h : ∀ l ∈ q.leaves, l.Balanced) (r : Rendering)
    (k : Nat) (kind : JoinKind) (asName : String) (terms : List JoinTerm) :
    Fragment.collapse (kind.keyword ++ " JOIN (" ++ String.ofList ((q.doc d).text r k) ++ ") " ++
        asName ++ JoinTerm.onClause terms) =
      kind.keyword ++ " JOIN (" ++ Fragment.collapse (String.ofList ((q.doc d).text r k)) ++
        Fragment.collapse (") " ++ asName ++ JoinTerm.onClause terms) := by
  rw [← Query.leaves_doc d] at h
  have hbal : Text.insideAfter false (kind.keyword ++ " JOIN ").toList = false := by
    cases kind <;> rfl
  have hsqueeze : Fragment.squeezeText false false (kind.keyword ++ " JOIN ").toList =
      (kind.keyword ++ " JOIN ").toList := by
    cases kind <;> rfl
  have hfirst : ∀ c ∈ (kind.keyword ++ " JOIN ").toList.head?, Text.isBlank c = false := by
    obtain ⟨letter, letters, hword, hletter⟩ : ∃ c cs,
        (kind.keyword ++ " JOIN ").toList = c :: cs ∧ Text.isBlank c = false := by
      cases kind <;> exact ⟨_, _, rfl, by decide⟩
    rw [hword]
    simpa using hletter
  have hcollapse := Fragment.collapseChars_parens hbal hsqueeze hfirst
    (Doc.insideAfter_text r k h) (trimmed_text d r k q)
    (" " ++ asName ++ JoinTerm.onClause terms).toList
  rw [← String.toList_inj]
  simpa using hcollapse

/-- **A nested query is written as it is alone, behind the values before it.** The text of a
query is made of pieces with placeholders between them.

* Written on a draft that holds `k` values, it is the same pieces with the placeholders from
  `k + 1` on, and its values are bound behind those of the draft.
* Wrapped as the source of a query it stands in parentheses as it is, and so it does in the
  place of the table of any query and where a column is looked for in its rows, there
  numbered behind the values before it.
* Joined it stands in parentheses with the blanks of the JOIN clause collapsed; if its quotes
  are balanced, that collapses its own text and what follows it each by itself.
* Where placeholders have no number, it is its own statement in all these places. -/
theorem written_alike (q : Query) (d : Dialect) :
    ∃ pieces : List String, pieces.length = (q.compile d).params.length + 1 ∧
      (q.compile d).sql = d.number pieces 0 ∧
      (∀ draft : Draft,
        ((q.write ⟨d, .bound⟩).run draft).1 = d.number pieces draft.bound.length ∧
        ((q.write ⟨d, .bound⟩).run draft).2.bound = draft.bound ++ (q.compile d).params) ∧
      (∀ asName : Option String, (q.wrap asName).compile d = ⟨"SELECT * FROM (" ++
        (q.compile d).sql ++ Text.trim (")" ++ asName.elim "" (" " ++ ·)), (q.compile d).params⟩) ∧
      (∀ (host : Query) (name : String) (asName : Option String),
        Inserts d { host with source := .table name asName }
          { host with source := .query q asName } (q.compile d).params
          fun k => "FROM (" ++ d.number pieces k ++ ")") ∧
      (∀ (host : Query) (column : String) (negated : Bool), ∃ host',
        host.call (.inSet negated column (.query q)) = .ok host' ∧
        host.Inserts d host' (q.compile d).params fun k =>
          column ++ " " ++ Predicate.membership negated ++ " (" ++ d.number pieces k ++ ")") ∧
      (∀ (host : Query) (kind : JoinKind) (on : ConditionSpec) (terms : List JoinTerm)
        (asName : String), kind ≠ .cross → on.resolve = .ok terms → ∃ host',
        host.call (.join kind (.query q) on asName) = .ok host' ∧
        host.Inserts d host' (q.compile d).params fun k => Fragment.collapse
          (kind.keyword ++ " JOIN (" ++ d.number pieces k ++ ") " ++ asName ++
            JoinTerm.onClause terms)) ∧
      ((∀ l ∈ q.leaves, l.Balanced) → ∀ (kind : JoinKind) (k : Nat) (asName : String)
        (terms : List JoinTerm),
        Fragment.collapse (kind.keyword ++ " JOIN (" ++ d.number pieces k ++ ") " ++ asName ++
            JoinTerm.onClause terms) =
          kind.keyword ++ " JOIN (" ++ Fragment.collapse (d.number pieces k) ++
            Fragment.collapse (") " ++ asName ++ JoinTerm.onClause terms)) ∧
      ((∀ i, d.placeholder i = "?") → ∀ k, d.number pieces k = (q.compile d).sql) := by
  obtain ⟨pieces, hlength, htext⟩ := (q.doc d).exists_number d
  have hparams : (q.compile d).params = (q.doc d).values := by rw [compile_eq]
  have hsql : (q.compile d).sql = d.number pieces 0 := by
    rw [compile_eq]
    exact htext 0
  refine ⟨pieces, ?_, hsql, fun draft => ?_, compile_wrap d q, fun host name asName => ?_,
    fun host column negated => ?_, fun host kind on terms asName hkind hon => ?_,
    fun h kind k asName terms => ?_, fun hd k => ?_⟩
  · rw [hparams, hlength]
  · have hwrites := Query.writes ⟨d, .bound⟩ q draft draft.bound.length fun _ => rfl
    rw [hparams, ← htext]
    exact ⟨hwrites.value, hwrites.bound⟩
  · rw [hparams]
    exact inserts_source htext host name asName
  · rw [hparams]
    exact inserts_inSet htext host column negated
  · rw [hparams]
    exact inserts_join htext host hkind hon asName
  · rw [← htext]
    exact collapse_join h ⟨d, .bound⟩ k kind asName terms
  · rw [hsql]
    exact Dialect.number_eq hd pieces k 0

/-- A query with blanks in its raw column and in a name, and a quote in a value. -/
def joinedSample : Query :=
  ⟨.table "u" none, { columns := [.raw "?  + ?" [.int 1, .text "it's"] false] }, [],
    [.comparison "a  b" .eq (.bool true) false], ⟨[], []⟩, []⟩

/-- A query with values before and behind its joins. -/
def joiningSample : Query :=
  ⟨.values [[.int 7]] none "m", { columns := [.raw "?" [.null] false] }, [],
    [.comparison "c" .gt (.int 2) false], ⟨[], []⟩, []⟩

theorem written_alike_joinedSample :
    (JoinKind.left ≠ .cross ∧
      (ConditionSpec.single "m.x" "=" "j.x").resolve = .ok [⟨⟨"m.x", .eq, "j.x"⟩, none⟩] ∧
      (∀ l ∈ joinedSample.leaves, l.Balanced) ∧ ∀ i, Dialect.sqlite.placeholder i = "?") ∧
    ∃ host', joiningSample.call (.join .left (.query joinedSample) (.single "m.x" "=" "j.x") "j") =
        .ok host' ∧
      joiningSample.Inserts .sqlite host' (joinedSample.compile .sqlite).params fun _ =>
        "LEFT JOIN (" ++ Fragment.collapse (joinedSample.compile .sqlite).sql ++
          Fragment.collapse ") j ON m.x = j.x" := by
  have hkind : JoinKind.left ≠ .cross := by decide
  have hon : (ConditionSpec.single "m.x" "=" "j.x").resolve =
      .ok [⟨⟨"m.x", .eq, "j.x"⟩, none⟩] := by rfl
  have hbal : ∀ l ∈ joinedSample.leaves, l.Balanced := by decide
  have hplain : ∀ i, Dialect.sqlite.placeholder i = "?" := fun _ => rfl
  obtain ⟨pieces, -, -, -, -, -, -, hjoin, hcollapse, hsame⟩ := written_alike joinedSample .sqlite
  obtain ⟨host', hcall, hinserts⟩ := hjoin joiningSample .left _ _ "j" hkind hon
  have hclause : (fun k => Fragment.collapse (JoinKind.left.keyword ++ " JOIN (" ++
        Dialect.sqlite.number pieces k ++ ") " ++ "j" ++
          JoinTerm.onClause [⟨⟨"m.x", .eq, "j.x"⟩, none⟩])) =
      fun _ => "LEFT JOIN (" ++ Fragment.collapse (joinedSample.compile .sqlite).sql ++
        Fragment.collapse ") j ON m.x = j.x" := by
    funext k
    rw [hcollapse hbal .left k "j", hsame hplain k]
    rfl
  rw [hclause] at hinserts
  exact ⟨⟨hkind, hon, hbal, hplain⟩, host', hcall, hinserts⟩

end Query

end SelectSql
