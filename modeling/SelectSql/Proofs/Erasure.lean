import SelectSql.Proofs.Doc.Statement

/-!
# SelectSql.Proofs.Erasure

A query with its data erased: every value is replaced by what a function leaves of it,
the text of a full text comparison keeps its length only, and the text of a pattern
nothing. Two queries differ in their data only if they are equal once the data is erased.

Design points:

* **The number of values stays**, in a set, in a row of a matrix and behind a raw
  fragment, since erasing goes through each list item by item.
* **The tree of a statement does not look at its values**: erasing the data of a query
  erases the values of its tree, and changes no word of the writer (`Query.erase_doc`).
-/

namespace SelectSql

/-! ## Queries -/

/-- A text of which only the length is left. -/
def blanked (s : String) : String :=
  String.ofList (List.replicate s.length ' ')

@[simp] theorem length_blanked (s : String) : (blanked s).length = s.length := by
  simp [blanked]

/-- Erases the values of a column. -/
def Column.erase (f : Value → Value) : Column → Column
  | .raw sql params standalone => .raw sql (params.map f) standalone
  | c => c

/-- Erases the values of a list of columns. -/
def Projection.erase (f : Value → Value) (p : Projection) : Projection :=
  { p with columns := p.columns.map (Column.erase f) }

mutual

/-- Erases the data of a query. -/
def Query.erase (f : Value → Value) : Query → Query
  | ⟨source, projection, joins, conditions, grouping, ordering⟩ =>
    ⟨source.erase f, projection.erase f, Join.eraseAll f joins,
      Predicate.eraseAll f conditions, grouping.erase f, ordering⟩

/-- Erases the data of a source. -/
def Source.erase (f : Value → Value) : Source → Source
  | .table name asName => .table name asName
  | .values rows aliases name => .values (rows.map (List.map f)) aliases name
  | .query q asName => .query (q.erase f) asName

/-- Erases the data of what is joined. -/
def JoinTarget.erase (f : Value → Value) : JoinTarget → JoinTarget
  | .table name => .table name
  | .query q => .query (q.erase f)

/-- Erases the data of a join. -/
def Join.erase (f : Value → Value) : Join → Join
  | ⟨target, kind, conditions, asName⟩ => ⟨target.erase f, kind, conditions, asName⟩

/-- Erases the data of joins. -/
def Join.eraseAll (f : Value → Value) : List Join → List Join
  | [] => []
  | j :: js => j.erase f :: Join.eraseAll f js

/-- Erases the members of a set, or the data of the query that selects them. -/
def SetSource.erase (f : Value → Value) : SetSource → SetSource
  | .values vs => .values (vs.map f)
  | .query q => .query (q.erase f)

/-- Erases the data of a predicate. -/
def Predicate.erase (f : Value → Value) : Predicate → Predicate
  | .comparison column op value negated => .comparison column op (f value) negated
  | .columnComparison column op other negated => .columnComparison column op other negated
  | .nullCheck column negated => .nullCheck column negated
  | .fullText column value negated => .fullText column (blanked value) negated
  | .pattern column _ negated options => .pattern column "" negated options
  | .inSet column source negated => .inSet column (source.erase f) negated
  | .anyOf ps => .anyOf (Predicate.eraseAll f ps)

/-- Erases the data of predicates. -/
def Predicate.eraseAll (f : Value → Value) : List Predicate → List Predicate
  | [] => []
  | p :: ps => p.erase f :: Predicate.eraseAll f ps

/-- Erases the data of the predicates on groups. -/
def Grouping.erase (f : Value → Value) : Grouping → Grouping
  | ⟨columns, having⟩ => ⟨columns, HavingEntry.eraseAll f having⟩

/-- Erases the data of HAVING predicates. -/
def HavingEntry.eraseAll (f : Value → Value) : List HavingEntry → List HavingEntry
  | [] => []
  | ⟨connective, predicate⟩ :: rest =>
    ⟨connective, predicate.erase f⟩ :: HavingEntry.eraseAll f rest

end

/-! ## Trees -/

/-- Erases the values of a leaf. -/
def Leaf.erase (f : Value → Value) : Leaf → Leaf
  | .fragment sql params => .fragment sql (params.map f)
  | .value v => .value (f v)
  | l => l

/-- Erases the value of a place. -/
def Symbol.erase (f : Value → Value) : Symbol → Symbol
  | .char c => .char c
  | .value v => .value (f v)

namespace Template

/-- Erases the values of a template. -/
def erase (f : Value → Value) (t : Template) : Template :=
  t.map (Symbol.erase f)

variable {f : Value → Value}

@[simp] theorem erase_append (s t : Template) : erase f (s ++ t) = erase f s ++ erase f t :=
  List.map_append

@[simp] theorem erase_ofChars (cs : List Char) : erase f (ofChars cs) = ofChars cs := by
  simp [erase, ofChars, Function.comp_def, Symbol.erase]

theorem erase_ofSegments (ss : List Segment) (vs : List Value) :
    Template.ofSegments ss (vs.map f) = erase f (Template.ofSegments ss vs) := by
  fun_induction Template.ofSegments ss vs with
  | case1 vs => rfl
  | case2 ss v vs ih =>
      rw [List.map_cons, Template.ofSegments, ih]
      rfl
  | case3 s ss vs hplain ih =>
      rw [erase_append, erase_ofChars, ← ih, Template.ofSegments]
      intro v rest hvs hs
      -- a value is left exactly where one was
      obtain ⟨w, ws, rfl, -⟩ := List.map_eq_cons_iff.1 hvs
      exact hplain w ws rfl hs

theorem erase_trim (t : Template) : erase f (trim t) = trim (erase f t) := by
  have hblank : Symbol.isBlank ∘ Symbol.erase f = Symbol.isBlank := by
    funext x
    cases x <;> rfl
  rw [trim, trim, erase, erase, Text.trimBy_map, hblank]

theorem erase_squeeze (inside afterSpace : Bool) (t : Template) :
    erase f (squeeze inside afterSpace t) = squeeze inside afterSpace (erase f t) := by
  induction t generalizing inside afterSpace with
  | nil => cases inside <;> rfl
  | cons x t ih =>
      cases x with
      | char c =>
          have herase : erase f (.char c :: t) = .char c :: erase f t := rfl
          rw [herase, squeeze, squeeze]
          split
          · split
            · exact ih inside true
            · exact congrArg (Symbol.char ' ' :: ·) (ih inside true)
          · exact congrArg (Symbol.char c :: ·) (ih _ false)
      | value v => exact congrArg (Symbol.value (f v) :: ·) (ih inside false)

/-- Collapsing does not look at the values. -/
theorem erase_collapse (t : Template) : erase f (collapse t) = collapse (erase f t) := by
  rw [collapse, collapse, erase_trim, erase_squeeze]

end Template

theorem Leaf.template_erase (f : Value → Value) (d : Dialect) (l : Leaf) :
    (l.erase f).template d = (l.template d).erase f := by
  cases l with
  | fragment sql params => exact Template.erase_ofSegments _ _
  | value v => rfl
  | _ => exact (Template.erase_ofChars _).symm

theorem Leaf.written_erase (f : Value → Value) (l : Leaf) :
    (l.erase f).written = l.written.map f := by
  cases l with
  | fragment sql params => exact List.map_take.symm
  | _ => rfl

namespace Doc

/-- A tree with its leaves replaced. -/
def map (g : Leaf → Leaf) : Doc → Doc
  | .own s plain => .own s plain
  | .leaf l => .leaf (g l)
  | .append a b => .append (a.map g) (b.map g)
  | .parens a => .parens (a.map g)
  | .collapsed a => .collapsed (a.map g)
  | .headed head plain a => .headed head plain (a.map g)
  | .clause a rest => .clause (a.map g) (rest.map g)

variable {f : Value → Value} {g : Leaf → Leaf}

@[simp] theorem map_own (s : String) (h : s.toList.all isOwnChar = true) :
    (own s h).map g = own s h := rfl

@[simp] theorem map_word (s : String) (h : s.toList.all isOwnChar = true) :
    (word s h).map g = word s h := rfl

@[simp] theorem map_empty : empty.map g = empty := rfl

@[simp] theorem map_leaf (l : Leaf) : (leaf l).map g = leaf (g l) := rfl

@[simp] theorem map_append (a b : Doc) : (a ++ b).map g = a.map g ++ b.map g := rfl

@[simp] theorem map_parens (a : Doc) : (parens a).map g = parens (a.map g) := rfl

@[simp] theorem map_sep (s : String) (h : s.toList.all isOwnChar = true) (as : List Doc) :
    (sep (word s h) as).map g = sep (word s h) (as.map (map g)) := by
  induction as with
  | nil => rfl
  | cons a as ih =>
      cases as with
      | nil => rfl
      | cons b as => rw [sep, map_append, map_append, ih]; rfl

@[simp] theorem map_clauses (as : List Doc) :
    (clauses as).map g = clauses (as.map (map g)) := by
  induction as with
  | nil => rfl
  | cons a as ih => rw [clauses, map, ih, List.map_cons, clauses]

theorem map_map (g' : Leaf → Leaf) (a : Doc) : (a.map g).map g' = a.map (g' ∘ g) := by
  induction a <;> simp_all [map]

theorem leaves_map (a : Doc) : (a.map g).leaves = a.leaves.map g := by
  induction a <;> simp_all [map, leaves]

@[simp] theorem values_erase (a : Doc) : (a.map (Leaf.erase f)).values = a.values.map f := by
  rw [values, values, leaves_map, List.flatMap_map, List.map_flatMap]
  simp only [Leaf.written_erase]

/-- **The template of a tree without values is its template without values.** -/
theorem template_erase (f : Value → Value) (d : Dialect) (a : Doc) :
    (a.map (Leaf.erase f)).template d = (a.template d).erase f := by
  induction a with
  | own s plain => exact (Template.erase_ofChars _).symm
  | leaf l => exact Leaf.template_erase f d l
  | append a b iha ihb => rw [map, template, template, iha, ihb, Template.erase_append]
  | parens a ih =>
      rw [map, template, template, ih]
      exact congrArg (Symbol.char '(' :: ·) (Template.erase_append (a.template d) [.char ')']).symm
  | collapsed a ih => rw [map, template, template, ih, Template.erase_collapse]
  | headed head plain a ih =>
      have hempty : ((a.template d).erase f).isEmpty = (a.template d).isEmpty := List.isEmpty_map
      rw [map, template, template, ih, under, under, hempty]
      split
      · rfl
      · rw [Template.erase_append, Template.erase_ofChars]
  | clause a b iha ihb =>
      have hempty (t : Template) : (t.erase f).isEmpty = t.isEmpty := List.isEmpty_map
      rw [map, template, template, iha, ihb, spaced, spaced, ← Template.erase_trim, hempty, hempty]
      split
      · rfl
      · split
        · rfl
        · exact (Template.erase_append _ (.char ' ' :: b.template d)).symm

end Doc

/-! ## The tree of a query without data -/

/-- A function that leaves the same of all texts, and nothing more to erase. -/
structure Forgets (f : Value → Value) : Prop where
  text : ∀ s t, f (.text s) = f (.text t)
  idem : ∀ v, f (f v) = f v

section Erase

variable {f : Value → Value}

theorem Column.erase_doc (hf : Forgets f) (c : Column) :
    (c.erase f).doc.map (Leaf.erase f) = c.doc.map (Leaf.erase f) := by
  cases c with
  | raw sql params standalone =>
      simp [Column.erase, Column.doc, Leaf.erase, Function.comp_def, hf.idem]
  | _ => rfl

theorem Projection.erase_doc (hf : Forgets f) (p : Projection) :
    (p.erase f).doc.map (Leaf.erase f) = p.doc.map (Leaf.erase f) := by
  rcases p with ⟨columns, distinct⟩
  rw [Projection.doc, Projection.doc, Projection.erase, Doc.map_append, Doc.map_append]
  cases columns with
  | nil => rfl
  | cons c cs =>
      simp [Function.comp_def, Column.erase_doc hf]

theorem Source.erase_rowDoc (hf : Forgets f) (rows : List (List Value)) :
    ((rows.map (List.map f)).map Source.rowDoc).map (Doc.map (Leaf.erase f)) =
      (rows.map Source.rowDoc).map (Doc.map (Leaf.erase f)) := by
  simp [Function.comp_def, Source.rowDoc, Value.doc, Leaf.erase, hf.idem]

theorem Dialect.erase_likeParts (d : Dialect) (column : String) (pattern : Value)
    (o : LikeOptions) (negated : Bool) :
    (d.likeParts column pattern o negated).map (Doc.map (Leaf.erase f)) =
      d.likeParts column (f pattern) o negated := by
  rcases o with ⟨caseSensitive, accentSensitive, escape⟩
  cases d <;> cases caseSensitive <;> cases accentSensitive <;> cases negated <;> rfl

mutual

/-- **The tree of a query without data is the tree of the query without values.** -/
theorem Query.erase_doc (hf : Forgets f) (d : Dialect) :
    (q : Query) → ((q.erase f).doc d).map (Leaf.erase f) = (q.doc d).map (Leaf.erase f)
  | ⟨source, projection, joins, conditions, grouping, ordering⟩ => by
      rw [Query.erase, Query.doc, Query.doc]
      simp [Projection.erase_doc hf, Source.erase_doc hf d source, Join.erase_docs hf d joins,
        Predicate.erase_conjunctionDoc hf d conditions, Grouping.erase_doc hf d grouping,
        Doc.map]

theorem Source.erase_doc (hf : Forgets f) (d : Dialect) :
    (s : Source) → ((s.erase f).doc d).map (Leaf.erase f) = (s.doc d).map (Leaf.erase f)
  | .table name asName => rfl
  | .values rows aliases name => by
      have hrows := Source.erase_rowDoc hf rows
      cases aliases <;> simp only [Source.erase, Source.doc, Doc.map_append, Doc.map_parens,
        Doc.map_word, Doc.map_sep, hrows]
  | .query q asName => by
      rw [Source.erase, Source.doc, Source.doc]
      simp [Query.erase_doc hf d q]

theorem JoinTarget.erase_doc (hf : Forgets f) (d : Dialect) :
    (t : JoinTarget) → ((t.erase f).doc d).map (Leaf.erase f) = (t.doc d).map (Leaf.erase f)
  | .table name => rfl
  | .query q => by
      rw [JoinTarget.erase, JoinTarget.doc, JoinTarget.doc]
      simp [Query.erase_doc hf d q]

theorem Join.erase_doc (hf : Forgets f) (d : Dialect) :
    (j : Join) → ((j.erase f).doc d).map (Leaf.erase f) = (j.doc d).map (Leaf.erase f)
  | ⟨target, kind, conditions, asName⟩ => by
      rw [Join.erase, Join.doc, Join.doc]
      simp [Doc.map, JoinTarget.erase_doc hf d target]

theorem Join.erase_docs (hf : Forgets f) (d : Dialect) :
    (js : List Join) → (Join.docs d (Join.eraseAll f js)).map (Doc.map (Leaf.erase f)) =
      (Join.docs d js).map (Doc.map (Leaf.erase f))
  | [] => rfl
  | j :: js => by
      rw [Join.eraseAll, Join.docs, Join.docs, List.map_cons, List.map_cons,
        Join.erase_doc hf d j, Join.erase_docs hf d js]

theorem Predicate.erase_doc (hf : Forgets f) (d : Dialect) :
    (p : Predicate) → ((p.erase f).doc d).map (Leaf.erase f) = (p.doc d).map (Leaf.erase f)
  | .comparison column op value negated => by
      rw [Predicate.erase, Predicate.doc, Predicate.doc]
      cases negated <;> simp [Doc.spaces, Doc.nots, Operator.doc, Value.doc, Leaf.erase, hf.idem]
  | .columnComparison column op other negated => rfl
  | .nullCheck column negated => rfl
  | .fullText column value negated => by
      have hvalue := hf.text (blanked value) value
      rw [Predicate.erase, Predicate.doc, Predicate.doc, length_blanked]
      cases negated <;> simp [Doc.spaces, Doc.nots, Value.doc, Leaf.erase, hvalue]
  | .pattern column value negated options => by
      rw [Predicate.erase, Predicate.doc, Predicate.doc, Doc.spaces, Doc.spaces, Doc.map_sep,
        Doc.map_sep, Dialect.erase_likeParts, Dialect.erase_likeParts, hf.text "" value]
  | .inSet column (.values []) negated => rfl
  | .inSet column (.values (v :: vs)) negated => by
      have hset := SetSource.erase_doc hf d (.values (v :: vs))
      rw [Predicate.erase, SetSource.erase, List.map_cons, Predicate.doc, Predicate.doc]
      · rw [SetSource.erase, List.map_cons] at hset
        cases negated <;> simp [Doc.spaces, Doc.nots, hset]
      all_goals simp
  | .inSet column (.query q) negated => by
      have hset := SetSource.erase_doc hf d (.query q)
      rw [Predicate.erase, SetSource.erase, Predicate.doc, Predicate.doc]
      · rw [SetSource.erase] at hset
        cases negated <;> simp [Doc.spaces, Doc.nots, hset]
      all_goals simp
  | .anyOf ps => by
      rw [Predicate.erase, Predicate.doc, Predicate.doc]
      simp [Predicate.erase_docs hf d ps]

theorem SetSource.erase_doc (hf : Forgets f) (d : Dialect) :
    (s : SetSource) → ((s.erase f).doc d).map (Leaf.erase f) = (s.doc d).map (Leaf.erase f)
  | .values vs => by
      rw [SetSource.erase, SetSource.doc, SetSource.doc]
      simp [Value.doc, Leaf.erase, Function.comp_def, hf.idem]
  | .query q => by
      rw [SetSource.erase, SetSource.doc, SetSource.doc]
      exact Query.erase_doc hf d q

theorem Predicate.erase_docs (hf : Forgets f) (d : Dialect) : (ps : List Predicate) →
      (Predicate.docs d (Predicate.eraseAll f ps)).map (Doc.map (Leaf.erase f)) =
        (Predicate.docs d ps).map (Doc.map (Leaf.erase f))
  | [] => rfl
  | p :: ps => by
      rw [Predicate.eraseAll, Predicate.docs, Predicate.docs, List.map_cons, List.map_cons,
        Predicate.erase_doc hf d p, Predicate.erase_docs hf d ps]

theorem Predicate.erase_conjunctionDoc (hf : Forgets f) (d : Dialect) : (ps : List Predicate) →
      (Predicate.conjunctionDoc d (Predicate.eraseAll f ps)).map (Leaf.erase f) =
        (Predicate.conjunctionDoc d ps).map (Leaf.erase f)
  | [] => rfl
  | [p] => by
      have hp := Predicate.erase_doc hf d p
      cases p with
      | anyOf ps =>
          rw [Predicate.eraseAll, Predicate.erase, Predicate.eraseAll, Predicate.conjunctionDoc,
            Predicate.conjunctionDoc]
          simp [Predicate.erase_docs hf d ps]
      | _ => exact hp
  | p :: q :: ps => by
      have hps := Predicate.erase_docs hf d (q :: ps)
      rw [Predicate.eraseAll, Predicate.conjunctionDoc, Predicate.conjunctionDoc]
      · simp [Predicate.erase_doc hf d p, hps]
      all_goals simp [Predicate.eraseAll]

theorem Grouping.erase_doc (hf : Forgets f) (d : Dialect) :
    (g : Grouping) → ((g.erase f).doc d).map (Leaf.erase f) = (g.doc d).map (Leaf.erase f)
  | ⟨columns, having⟩ => by
      rw [Grouping.erase, Grouping.doc, Grouping.doc]
      split
      · rfl
      · simp [HavingEntry.erase_chainDoc hf d true having]

theorem HavingEntry.erase_chainDoc (hf : Forgets f) (d : Dialect) :
    (first : Bool) → (es : List HavingEntry) →
      (HavingEntry.chainDoc d first (HavingEntry.eraseAll f es)).map (Leaf.erase f) =
        (HavingEntry.chainDoc d first es).map (Leaf.erase f)
  | _, [] => rfl
  | first, ⟨connective, predicate⟩ :: rest => by
      rw [HavingEntry.eraseAll, HavingEntry.chainDoc, HavingEntry.chainDoc]
      simp [Predicate.erase_doc hf d predicate, HavingEntry.erase_chainDoc hf d false rest]

end

end Erase

end SelectSql
