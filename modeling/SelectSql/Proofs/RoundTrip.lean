import SelectSql.Proofs.Documents
import SelectSql.Proofs.Json.Texts
import SelectSql.Query.Same
import SelectSql.Statement

/-!
# SelectSql.Proofs.RoundTrip

A query is stored as JSON text and read back.

Design points:

* **The text is read back as the document, and the document as the query**: the first
  needs numbers that JSON can write (`Query.printable_tree` holds of every query, since the
  others are written as null), the second needs the values to be those numbers.
* **Read back as itself** is equality of all fields and of the bits of every number, which
  is more than `Query.same`: there the two zeros are equal and NaN is not.

Main statement: `Query.ofJson?_toJson`.
-/

namespace SelectSql

/-! ## The documents of queries can be written -/

namespace Tree

@[simp] theorem printable_null : null.Printable := trivial

@[simp] theorem printable_bool (b : Bool) : (bool b).Printable := trivial

@[simp] theorem printable_text (s : String) : (text s).Printable := trivial

@[simp] theorem printable_list {ts : List Tree} :
    (list ts).Printable ↔ ∀ t ∈ ts, t.Printable := by
  show AllPrintable ts ↔ _
  induction ts with
  | nil => simp [AllPrintable]
  | cons t ts ih => rw [AllPrintable, ih, List.forall_mem_cons]

@[simp] theorem printable_record {es : List (String × Tree)} :
    (record es).Printable ↔ ∀ e ∈ es, e.2.Printable := by
  show EntriesPrintable es ↔ _
  induction es with
  | nil => simp [EntriesPrintable]
  | cons e es ih => rw [EntriesPrintable, ih, List.forall_mem_cons]

@[simp] theorem printable_variant {name : String} {payload : Tree} :
    (variant name payload).Printable ↔ payload.Printable := by
  simp [variant]

@[simp] theorem printable_ofText? (s : Option String) : (ofText? s).Printable := by
  cases s <;> simp [ofText?]

@[simp] theorem printable_ofTexts (ss : List String) : (ofTexts ss).Printable := by
  simp [ofTexts]

end Tree

/-- Numbers that JSON cannot write are null in a document. -/
@[simp] theorem Value.printable_tree (v : Value) : v.tree.Printable := by
  cases v with
  | int n =>
      have hlow := Int64.minValue_le_toInt n
      have hhigh := Int64.toInt_le n
      have hsize : Int64.maxValue.toInt < UInt64.size := by decide
      exact ⟨hlow, by omega⟩
  | float x =>
      rw [Value.tree]
      split
      · next hx => exact hx
      · trivial
  | null | bool b | text s => trivial

@[simp] theorem Column.printable_tree (c : Column) : c.tree.Printable := by
  cases c <;> simp [Column.tree]

@[simp] theorem OrderTerm.printable_tree (t : OrderTerm) : t.tree.Printable := by
  simp [OrderTerm.tree]

@[simp] theorem LikeOptions.printable_tree (o : LikeOptions) : o.tree.Printable := by
  simp [LikeOptions.tree]

@[simp] theorem JoinTerm.printable_tree (t : JoinTerm) : t.tree.Printable := by
  simp [JoinTerm.tree, JoinCondition.tree]

mutual

/-- The document of a query can be written as JSON, whatever its values. -/
theorem Query.printable_tree : (q : Query) → q.tree.Printable
  | ⟨source, projection, joins, conditions, ⟨columns, having⟩, ordering⟩ => by
      have hlists := And.intro (Join.printable_trees joins)
        (And.intro (Predicate.printable_trees conditions) (HavingEntry.printable_trees having))
      simpa [Query.tree, Grouping.tree, Projection.tree, Source.printable_tree source]
        using hlists

theorem Source.printable_tree : (s : Source) → s.tree.Printable
  | .table name asName => by simp [Source.tree]
  | .values rows aliases name => by cases aliases <;> simp [Source.tree]
  | .query q asName => by simp [Source.tree, Query.printable_tree q]

theorem JoinTarget.printable_tree : (t : JoinTarget) → t.tree.Printable
  | .table name => by simp [JoinTarget.tree]
  | .query q => by simp [JoinTarget.tree, Query.printable_tree q]

theorem Join.printable_trees : (js : List Join) → ∀ t ∈ Join.trees js, t.Printable
  | [] => by simp [Join.trees]
  | ⟨target, kind, conditions, asName⟩ :: js => by
      rw [Join.trees]
      refine List.forall_mem_cons.2 ⟨?_, Join.printable_trees js⟩
      simp [Join.tree, JoinTarget.printable_tree target]

theorem SetSource.printable_tree : (s : SetSource) → s.tree.Printable
  | .values vs => by simp [SetSource.tree]
  | .query q => by simp [SetSource.tree, Query.printable_tree q]

theorem Predicate.printable_tree : (p : Predicate) → p.tree.Printable
  | .comparison column op value negated => by simp [Predicate.tree]
  | .columnComparison column op other negated => by simp [Predicate.tree]
  | .nullCheck column negated => by simp [Predicate.tree]
  | .fullText column value negated => by simp [Predicate.tree]
  | .pattern column value negated options => by simp [Predicate.tree]
  | .inSet column source negated => by simp [Predicate.tree, SetSource.printable_tree source]
  | .anyOf ps => by
      rw [Predicate.tree, Tree.printable_variant, Tree.printable_list]
      exact Predicate.printable_trees ps

theorem Predicate.printable_trees : (ps : List Predicate) → ∀ t ∈ Predicate.trees ps, t.Printable
  | [] => by simp [Predicate.trees]
  | p :: ps => by
      rw [Predicate.trees]
      exact List.forall_mem_cons.2 ⟨Predicate.printable_tree p, Predicate.printable_trees ps⟩

theorem HavingEntry.printable_trees :
    (es : List HavingEntry) → ∀ t ∈ HavingEntry.trees es, t.Printable
  | [] => by simp [HavingEntry.trees]
  | ⟨connective, predicate⟩ :: es => by
      rw [HavingEntry.trees]
      refine List.forall_mem_cons.2 ⟨?_, HavingEntry.printable_trees es⟩
      simp [Predicate.printable_tree predicate]

end

/-! ## Equality of numbers -/

theorem Value.same_self {v : Value} (h : v.IsFinite) : v.same v = true := by
  cases v with
  | float x =>
      have hx : x.isFinite = true := h
      have hnumber : x.isNaN = false := by
        simp only [Binary64.isFinite, bne_iff_ne] at hx
        simp [Binary64.isNaN, hx]
      simp [Value.same, Binary64.sameNumber, hnumber]
  | _ => simp [Value.same]

theorem Value.allSame_self {vs : List Value} (h : ∀ v ∈ vs, v.IsFinite) :
    Value.allSame vs vs = true := by
  induction vs with
  | nil => rfl
  | cons v vs ih =>
      rw [List.forall_mem_cons] at h
      rw [Value.allSame, Value.same_self h.1, ih h.2]
      rfl

theorem Column.allSame_self {cs : List Column}
    (h : ∀ v ∈ cs.flatMap Column.allValues, v.IsFinite) : Column.allSame cs cs = true := by
  induction cs with
  | nil => rfl
  | cons c cs ih =>
      rw [List.flatMap_cons, List.forall_mem_append] at h
      have hc : c.same c = true := by
        cases c with
        | raw sql params standalone =>
            have hparams : ∀ v ∈ params, v.IsFinite := h.1
            have hsame := Value.allSame_self hparams
            simp [Column.same, hsame]
        | _ => simp [Column.same]
      rw [Column.allSame, hc, ih h.2]
      rfl

theorem Source.sameRows_self {rows : List (List Value)} (h : ∀ v ∈ rows.flatten, v.IsFinite) :
    Source.sameRows rows rows = true := by
  induction rows with
  | nil => rfl
  | cons row rows ih =>
      rw [List.flatten_cons, List.forall_mem_append] at h
      rw [Source.sameRows, Value.allSame_self h.1, ih h.2]
      rfl

mutual

/-- Without NaN a query is the same as itself. -/
theorem Query.same_self : (q : Query) → (∀ v ∈ q.allValues, v.IsFinite) → q.same q = true
  | ⟨source, projection, joins, conditions, ⟨columns, having⟩, ordering⟩, h => by
      simp only [Query.allValues, Grouping.allValues, List.forall_mem_append] at h
      obtain ⟨⟨⟨⟨hsource, hprojection⟩, hjoins⟩, hconditions⟩, hhaving⟩ := h
      simp [Query.same, Grouping.same, Source.same_self source hsource,
        Column.allSame_self hprojection, Join.allSame_self joins hjoins,
        Predicate.allSame_self conditions hconditions, HavingEntry.allSame_self having hhaving]

theorem Source.same_self : (s : Source) → (∀ v ∈ s.allValues, v.IsFinite) → s.same s = true
  | .table name asName, _ => by simp [Source.same]
  | .values rows aliases name, h => by
      have hrows : Source.sameRows rows rows = true := Source.sameRows_self h
      simp [Source.same, hrows]
  | .query q asName, h => by simp [Source.same, Query.same_self q h]

theorem JoinTarget.same_self :
    (t : JoinTarget) → (∀ v ∈ t.allValues, v.IsFinite) → t.same t = true
  | .table name, _ => by simp [JoinTarget.same]
  | .query q, h => by simp [JoinTarget.same, Query.same_self q h]

theorem Join.allSame_self :
    (js : List Join) → (∀ v ∈ Join.allValuesOf js, v.IsFinite) → Join.allSame js js = true
  | [], _ => rfl
  | ⟨target, kind, conditions, asName⟩ :: js, h => by
      rw [Join.allValuesOf, List.forall_mem_append] at h
      simp [Join.allSame, Join.same, JoinTarget.same_self target h.1, Join.allSame_self js h.2]

theorem SetSource.same_self :
    (s : SetSource) → (∀ v ∈ s.allValues, v.IsFinite) → s.same s = true
  | .values vs, h => by
      have hvs : Value.allSame vs vs = true := Value.allSame_self h
      simp [SetSource.same, hvs]
  | .query q, h => by simp [SetSource.same, Query.same_self q h]

theorem Predicate.same_self :
    (p : Predicate) → (∀ v ∈ p.allValues, v.IsFinite) → p.same p = true
  | .comparison column op value negated, h => by
      simp [Predicate.same, Value.same_self (h value List.mem_cons_self)]
  | .columnComparison column op other negated, _ => by simp [Predicate.same]
  | .nullCheck column negated, _ => by simp [Predicate.same]
  | .fullText column value negated, _ => by simp [Predicate.same]
  | .pattern column value negated options, _ => by simp [Predicate.same]
  | .inSet column source negated, h => by simp [Predicate.same, SetSource.same_self source h]
  | .anyOf ps, h => by
      rw [Predicate.same]
      exact Predicate.allSame_self ps h

theorem Predicate.allSame_self : (ps : List Predicate) →
    (∀ v ∈ Predicate.allValuesOf ps, v.IsFinite) → Predicate.allSame ps ps = true
  | [], _ => rfl
  | p :: ps, h => by
      rw [Predicate.allValuesOf, List.forall_mem_append] at h
      simp [Predicate.allSame, Predicate.same_self p h.1, Predicate.allSame_self ps h.2]

theorem HavingEntry.allSame_self : (es : List HavingEntry) →
    (∀ v ∈ HavingEntry.allValuesOf es, v.IsFinite) → HavingEntry.allSame es es = true
  | [], _ => rfl
  | ⟨connective, predicate⟩ :: es, h => by
      rw [HavingEntry.allValuesOf, List.forall_mem_append] at h
      simp [HavingEntry.allSame, Predicate.same_self predicate h.1,
        HavingEntry.allSame_self es h.2]

end

/-! ## Queries as JSON -/

namespace Query

/-- **A query is read back from its JSON text** if its numbers are finite and its document is
not nested too deeply: as itself, value by value and kind by kind, and it is the same as
itself for those who compare numbers as numbers. So whatever is read back compiles to the
same statement with the same values for every engine, and is written as the same JSON.

This rests on numerals being read exactly (`Json.ofNumeral`). A reader that may be off in the
last place does not bring back every floating-point number, and nothing is said about it. -/
theorem ofJson?_toJson (q : Query) (hfinite : ∀ v ∈ q.allValues, v.IsFinite)
    (hdepth : q.tree.depth ≤ nestingLimit) :
    ofJson? q.toJson = some q ∧ q.same q = true ∧
    ∀ back, ofJson? q.toJson = some back →
      back.allValues = q.allValues ∧
      (∀ d, back.compile d = q.compile d ∧ back.inline d = q.inline d) ∧
      back.toJson = q.toJson := by
  have hread : ofJson? q.toJson = some q := by
    rw [ofJson?, toJson, Tree.ofJson?_json q.printable_tree]
    exact q.readsBack hfinite nestingLimit hdepth
  refine ⟨hread, q.same_self hfinite, fun back hback => ?_⟩
  obtain rfl : q = back := Option.some.inj (hread.symm.trans hback)
  exact ⟨rfl, fun _ => ⟨rfl, rfl⟩, rfl⟩

/-- A query with values of every kind: numbers that look like each other, an empty alias next
to none, and strings that JSON has to escape. -/
def storedSample : Query :=
  ⟨.query ⟨.values [[.int 2, .float ⟨0x4000000000000000⟩], [.null, .text "NULL"]]
      (some ["a", ""]) "m", {}, [], [],
      ⟨[], [⟨.or, .comparison "a" .notIlike (.float ⟨0x8000000000000000⟩) true⟩]⟩, []⟩ (some ""),
    ⟨[.raw "? + 1" [.bool true] false, .named "x" none (some ""), .aggregate .max "y" none], true⟩,
    [⟨.table "t", .cross, [⟨⟨"a", .ge, "b"⟩, some .or⟩], "j"⟩],
    [.anyOf [.pattern "c" "\"\\\n\x01é" true { escape := '"' },
      .inSet "d" (.query ⟨.table "u" none, {}, [], [], ⟨[], []⟩, [⟨"e", false⟩]⟩) true],
      .comparison "f" .eq (.float ⟨0x3FB999999999999A⟩) false,
      .comparison "g" .eq (.int (-9223372036854775808)) false],
    ⟨["h"], []⟩, []⟩

theorem ofJson?_toJson_storedSample :
    (∀ v ∈ storedSample.allValues, v.IsFinite) ∧ storedSample.tree.depth ≤ nestingLimit ∧
    ofJson? storedSample.toJson = some storedSample ∧ storedSample.same storedSample = true ∧
    ∀ back, ofJson? storedSample.toJson = some back →
      back.allValues = storedSample.allValues ∧
      (∀ d, back.compile d = storedSample.compile d ∧ back.inline d = storedSample.inline d) ∧
      back.toJson = storedSample.toJson := by
  have hfinite : ∀ v ∈ storedSample.allValues, v.IsFinite := by decide
  have hdepth : storedSample.tree.depth ≤ nestingLimit := by decide
  exact ⟨hfinite, hdepth, ofJson?_toJson storedSample hfinite hdepth⟩

end Query

end SelectSql
