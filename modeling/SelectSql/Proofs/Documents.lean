import SelectSql.Query.OfDocument

/-!
# SelectSql.Proofs.Documents

A query is read back from its document form.

Design points:

* **The budget is compared with the depth of the document**: `Tree.depth` counts nested
  lists and records, and a reader may enter them all if its budget is not below that.
* **Every part has one statement, `ReadsBack`**: it is read back from its document at every
  sufficient budget. The statement of a whole follows from those of its parts, so the
  mutual induction at the end only puts lemmas together.
* **Only values that JSON can write count**: an infinity or a NaN is written as null and
  is read back as null.

Main statement: `Query.readsBack`.
-/

namespace SelectSql

/-! ## Values of a query -/

/-- A value that JSON can write as a number, if it is one. -/
def Value.IsFinite : Value → Prop
  | .float x => x.isFinite = true
  | _ => True

instance : DecidablePred Value.IsFinite
  | .float x => inferInstanceAs (Decidable (x.isFinite = true))
  | .null | .bool _ | .int _ | .text _ => inferInstanceAs (Decidable True)

/-- The values of a column. -/
def Column.allValues : Column → List Value
  | .raw _ params _ => params
  | _ => []

mutual

/-- All values that a query holds, those that are not written included. -/
def Query.allValues : Query → List Value
  | ⟨source, projection, joins, conditions, grouping, _⟩ =>
    source.allValues ++ projection.columns.flatMap Column.allValues ++ Join.allValuesOf joins ++
      Predicate.allValuesOf conditions ++ grouping.allValues

/-- The values of a source. -/
def Source.allValues : Source → List Value
  | .table _ _ => []
  | .values rows _ _ => rows.flatten
  | .query q _ => q.allValues

/-- The values of what is joined. -/
def JoinTarget.allValues : JoinTarget → List Value
  | .table _ => []
  | .query q => q.allValues

/-- The values of a join. -/
def Join.allValues : Join → List Value
  | ⟨target, _, _, _⟩ => target.allValues

/-- The values of joins. -/
def Join.allValuesOf : List Join → List Value
  | [] => []
  | j :: js => j.allValues ++ Join.allValuesOf js

/-- The values of a set. -/
def SetSource.allValues : SetSource → List Value
  | .values vs => vs
  | .query q => q.allValues

/-- The values of a predicate. -/
def Predicate.allValues : Predicate → List Value
  | .comparison _ _ value _ => [value]
  | .inSet _ source _ => source.allValues
  | .anyOf ps => Predicate.allValuesOf ps
  | .columnComparison _ _ _ _ | .nullCheck _ _ | .fullText _ _ _ | .pattern _ _ _ _ => []

/-- The values of predicates. -/
def Predicate.allValuesOf : List Predicate → List Value
  | [] => []
  | p :: ps => p.allValues ++ Predicate.allValuesOf ps

/-- The values of the HAVING predicates. -/
def Grouping.allValues : Grouping → List Value
  | ⟨_, having⟩ => HavingEntry.allValuesOf having

/-- The values of HAVING predicates. -/
def HavingEntry.allValuesOf : List HavingEntry → List Value
  | [] => []
  | ⟨_, predicate⟩ :: rest => predicate.allValues ++ HavingEntry.allValuesOf rest

end

/-! ## Depth -/

namespace Tree

mutual

/-- How deeply the lists and records of a document are nested. -/
def depth : Tree → Nat
  | .list items => depthAll items + 1
  | .record entries => depthEntries entries + 1
  | _ => 0

/-- The greatest depth of items. -/
def depthAll : List Tree → Nat
  | [] => 0
  | t :: ts => max t.depth (depthAll ts)

/-- The greatest depth of entries. -/
def depthEntries : List (String × Tree) → Nat
  | [] => 0
  | (_, t) :: es => max t.depth (depthEntries es)

end

theorem depthAll_le {n : Nat} {ts : List Tree} : depthAll ts ≤ n ↔ ∀ t ∈ ts, t.depth ≤ n := by
  induction ts with
  | nil => simp [depthAll]
  | cons t ts ih => rw [depthAll, Nat.max_le, ih, List.forall_mem_cons]

theorem depthEntries_le {n : Nat} {es : List (String × Tree)} :
    depthEntries es ≤ n ↔ ∀ e ∈ es, e.2.depth ≤ n := by
  induction es with
  | nil => simp [depthEntries]
  | cons e es ih => rw [depthEntries, Nat.max_le, ih, List.forall_mem_cons]

theorem depth_list_le {ts : List Tree} {d : Nat} :
    (list ts).depth ≤ d + 1 ↔ ∀ t ∈ ts, t.depth ≤ d := by
  rw [Tree.depth, Nat.add_le_add_iff_right, depthAll_le]

theorem depth_record_le {es : List (String × Tree)} {d : Nat} :
    (record es).depth ≤ d + 1 ↔ ∀ e ∈ es, e.2.depth ≤ d := by
  rw [Tree.depth, Nat.add_le_add_iff_right, depthEntries_le]

/-- Where a list is read, a level may be entered, and its items have what is left. -/
theorem exists_of_depth_list {ts : List Tree} {depth : Nat} (h : (list ts).depth ≤ depth) :
    ∃ d, depth = d + 1 ∧ ∀ t ∈ ts, t.depth ≤ d := by
  cases depth with
  | zero => simp [Tree.depth] at h
  | succ d => exact ⟨d, rfl, depth_list_le.1 h⟩

/-- Where a record is read, a level may be entered, and its fields have what is left. -/
theorem exists_of_depth_record {es : List (String × Tree)} {depth : Nat}
    (h : (record es).depth ≤ depth) : ∃ d, depth = d + 1 ∧ ∀ e ∈ es, e.2.depth ≤ d := by
  cases depth with
  | zero => simp [Tree.depth] at h
  | succ d => exact ⟨d, rfl, depth_record_le.1 h⟩

theorem exists_of_depth_variant {name : String} {payload : Tree} {depth : Nat}
    (h : (variant name payload).depth ≤ depth) : ∃ d, depth = d + 1 ∧ payload.depth ≤ d := by
  obtain ⟨d, rfl, hd⟩ := exists_of_depth_record h
  exact ⟨d, rfl, hd _ List.mem_cons_self⟩

/-! ## Fields -/

/-- The items under a key that is not there. -/
theorem itemsAt_of_notMem {key : String} {entries : List (String × Tree)}
    (h : key ∉ entries.map Prod.fst) : itemsAt key entries = [] := by
  rw [itemsAt, List.filter_eq_nil_iff.2, List.map_nil]
  intro e he heq
  exact h (List.mem_map.2 ⟨e, he, by simpa using heq⟩)

theorem itemsAt_of_mem {entries : List (String × Tree)} (h : (entries.map Prod.fst).Nodup)
    {e : String × Tree} (he : e ∈ entries) : itemsAt e.1 entries = [e.2] := by
  induction entries with
  | nil => contradiction
  | cons d entries ih =>
      rw [List.map_cons, List.nodup_cons] at h
      rcases List.mem_cons.1 he with rfl | he
      · have hrest := itemsAt_of_notMem h.1
        rw [itemsAt] at hrest ⊢
        simp [hrest]
      · have hne : d.1 ≠ e.1 := by
          rintro heq
          exact h.1 (heq ▸ List.mem_map_of_mem he)
        have hrest := ih h.2 he
        rw [itemsAt] at hrest ⊢
        simpa [hne] using hrest

/-- A record whose keys differ gives the documents of its fields, in order. -/
theorem fieldsOf?_record {names : List String} {entries : List (String × Tree)}
    (hnames : entries.map Prod.fst = names) (hnodup : names.Nodup) :
    (record entries).fieldsOf? names = some (entries.map fun e => some e.2) := by
  subst hnames
  have hall (es : List (String × Tree)) (hes : ∀ e ∈ es, e ∈ entries) :
      (es.map Prod.fst).mapM (fun name => itemAt? name entries) =
        some (es.map fun e => some e.2) := by
    induction es with
    | nil => rfl
    | cons e es ih =>
        rw [List.forall_mem_cons] at hes
        have hitem : itemAt? e.1 entries = some (some e.2) := by
          rw [itemAt?, itemsAt_of_mem hnodup hes.1]
        rw [List.map_cons, List.mapM_cons, hitem, ih hes.2]
        rfl
  exact hall entries fun e he => he

@[simp] theorem text?_text (s : String) : (text s).text? = some s := rfl

@[simp] theorem bool?_bool (b : Bool) : (bool b).bool? = some b := rfl

@[simp] theorem list?_list (ts : List Tree) : (list ts).list? = some ts := rfl

@[simp] theorem variant?_variant (name : String) (payload : Tree) :
    (variant name payload).variant? = some (name, payload) := rfl

@[simp] theorem bare?_text (depth : Nat) (name : String) :
    (text name).bare? .json depth = some name := rfl

@[simp] theorem textOrNull?_ofText? (s : Option String) :
    textOrNull? (some (ofText? s)) = some s := by
  cases s <;> rfl

@[simp] theorem char?_singleton (c : Char) : (text (String.singleton c)).char? = some c := by
  simp [char?]

end Tree

/-! ## Names -/

@[simp] theorem Operator.ofName?_name (op : Operator) : Operator.ofName? op.name = some op := by
  cases op <;> decide

@[simp] theorem Connective.ofName?_name (c : Connective) :
    Connective.ofName? c.name = some c := by
  cases c <;> decide

@[simp] theorem Aggregate.ofName?_name (a : Aggregate) : Aggregate.ofName? a.name = some a := by
  cases a <;> decide

@[simp] theorem JoinKind.ofName?_name (k : JoinKind) : JoinKind.ofName? k.name = some k := by
  cases k <;> decide

namespace Tree

@[simp] theorem operator?_name (depth : Nat) (op : Operator) :
    (text op.name).operator? depth = some op := by
  simp [operator?]

@[simp] theorem connective?_name (depth : Nat) (c : Connective) :
    (text c.name).connective? depth = some c := by
  simp [connective?]

@[simp] theorem connectiveOrNull?_name (depth : Nat) (c : Option Connective) :
    connectiveOrNull? depth (some (ofText? (c.map Connective.name))) = some c := by
  cases c <;> simp [connectiveOrNull?, ofText?]

end Tree

/-! ## Lists -/

/-- `Option.bind_some` for a step as it is written in a reader. The readers are run with their
steps left so: as soon as they are written with `Option.bind`, every later step is looked into
before the one in front of it is done. -/
@[simp] theorem some_bind {α β : Type} (a : α) (f : α → Option β) : (some a >>= f) = f a :=
  Option.bind_some a f

theorem mapM_map_of_forall {α β : Type} {f : β → Option α} {g : α → β} {as : List α}
    (h : ∀ a ∈ as, f (g a) = some a) : (as.map g).mapM f = some as := by
  induction as with
  | nil => rfl
  | cons a as ih =>
      rw [List.forall_mem_cons] at h
      simp [List.mapM_cons, h.1, ih h.2]

/-! ## Values -/

theorem Value.ofTree?_tree {v : Value} (h : v.IsFinite) : Value.ofTree? v.tree = some v := by
  cases v with
  | null => rfl
  | bool b => rfl
  | int n =>
      have hn : Int64.minValue.toInt ≤ n.toInt ∧ n.toInt ≤ Int64.maxValue.toInt :=
        ⟨Int64.minValue_le_toInt n, Int64.toInt_le n⟩
      rw [Value.tree, Value.ofTree?, if_pos hn, Int64.ofInt_toInt]
  | float x =>
      have hx : x.isFinite = true := h
      rw [Value.tree, if_pos hx, Value.ofTree?]
  | text s => rfl

theorem Tree.itemsWithin?_list (ts : List Tree) {depth : Nat} (hdepth : depth ≠ 0) :
    (Tree.list ts).itemsWithin? depth = some ts :=
  if_neg hdepth

theorem Tree.valuesWithin?_list {vs : List Value} (h : ∀ v ∈ vs, v.IsFinite) {depth : Nat}
    (hdepth : depth ≠ 0) : (Tree.list (vs.map Value.tree)).valuesWithin? depth = some vs := by
  rw [valuesWithin?, itemsWithin?_list _ hdepth, some_bind]
  exact mapM_map_of_forall fun v hv => Value.ofTree?_tree (h v hv)

@[simp] theorem Tree.texts?_ofTexts (ss : List String) : (Tree.ofTexts ss).texts? = some ss :=
  mapM_map_of_forall fun _ _ => rfl

theorem Tree.textsWithin?_ofTexts (ss : List String) {depth : Nat} (hdepth : depth ≠ 0) :
    (Tree.ofTexts ss).textsWithin? depth = some ss := by
  rw [textsWithin?, ofTexts, itemsWithin?_list _ hdepth, some_bind]
  exact mapM_map_of_forall fun _ _ => rfl

/-- No list is null, and an empty list is a list. -/
theorem Tree.textsOrNullWithin?_elim (ss : Option (List String)) {depth : Nat}
    (hdepth : depth ≠ 0) :
    textsOrNullWithin? depth (some (ss.elim .null ofTexts)) = some ss := by
  cases ss with
  | none => rfl
  | some ss =>
      show ((ofTexts ss).textsWithin? depth).map some = some (some ss)
      rw [textsWithin?_ofTexts ss hdepth]
      rfl

/-! ## Parts without nested queries -/

/-- A part is read back from its document wherever the document may be entered. -/
def ReadsBack {α : Type} (ofTree? : Nat → Tree → Option α) (t : Tree) (a : α) : Prop :=
  ∀ depth, t.depth ≤ depth → ofTree? depth t = some a

theorem ReadsBack.mapM {α : Type} {ofTree? : Nat → Tree → Option α} {tree : α → Tree}
    {as : List α} (h : ∀ a ∈ as, ReadsBack ofTree? (tree a) a) {depth : Nat}
    (hdepth : ∀ t ∈ as.map tree, t.depth ≤ depth) :
    (as.map tree).mapM (ofTree? depth) = some as :=
  mapM_map_of_forall fun a ha => h a ha depth (hdepth _ (List.mem_map_of_mem ha))

theorem Column.readsBack {c : Column} (hfinite : ∀ v ∈ c.allValues, v.IsFinite) :
    ReadsBack Column.ofTree? c.tree c := by
  intro depth h
  cases c with
  | raw sql params standalone =>
      rw [Column.tree] at h ⊢
      obtain ⟨d, rfl, hrecord⟩ := Tree.exists_of_depth_variant h
      obtain ⟨d, rfl, hfields⟩ := Tree.exists_of_depth_record hrecord
      have hparams := hfields ("params", .list (params.map Value.tree)) (by simp)
      obtain ⟨d, rfl, -⟩ := Tree.exists_of_depth_list hparams
      have hfinite : ∀ v ∈ params, v.IsFinite := hfinite
      have hvalues := Tree.valuesWithin?_list hfinite (Nat.succ_ne_zero d)
      rw [Column.ofTree?, Tree.variant?_variant, some_bind]
      simp [-Option.bind_eq_bind, Tree.fieldsOf?_record, hvalues]
  | named name table asName =>
      rw [Column.tree] at h ⊢
      obtain ⟨d, rfl, hrecord⟩ := Tree.exists_of_depth_variant h
      obtain ⟨d, rfl, -⟩ := Tree.exists_of_depth_record hrecord
      rw [Column.ofTree?, Tree.variant?_variant, some_bind]
      simp [-Option.bind_eq_bind, Tree.fieldsOf?_record]
  | aggregate function operand asName =>
      rw [Column.tree] at h ⊢
      obtain ⟨d, rfl, hrecord⟩ := Tree.exists_of_depth_variant h
      obtain ⟨d, rfl, -⟩ := Tree.exists_of_depth_record hrecord
      rw [Column.ofTree?, Tree.variant?_variant, some_bind]
      simp [-Option.bind_eq_bind, Tree.fieldsOf?_record]

theorem Projection.readsBack {p : Projection}
    (hfinite : ∀ v ∈ p.columns.flatMap Column.allValues, v.IsFinite) :
    ReadsBack Projection.ofTree? p.tree p := by
  intro depth h
  rw [Projection.tree] at h ⊢
  obtain ⟨d, rfl, hfields⟩ := Tree.exists_of_depth_record h
  obtain ⟨d, rfl, hitems⟩ := Tree.exists_of_depth_list (List.forall_mem_cons.1 hfields).1
  have hcolumns := ReadsBack.mapM (fun c hc => Column.readsBack fun v hv =>
    hfinite v (List.mem_flatMap.2 ⟨c, hc, hv⟩)) hitems
  rw [Projection.ofTree?]
  simp [-Option.bind_eq_bind, Tree.fieldsOf?_record, hcolumns]

theorem OrderTerm.readsBack (t : OrderTerm) : ReadsBack OrderTerm.ofTree? t.tree t := by
  intro depth h
  rw [OrderTerm.tree] at h ⊢
  obtain ⟨d, rfl, -⟩ := Tree.exists_of_depth_record h
  rw [OrderTerm.ofTree?]
  simp [-Option.bind_eq_bind, Tree.fieldsOf?_record]

theorem OrderTerm.readsBack_list (ts : List OrderTerm) :
    ReadsBack OrderTerm.listOfTree?
      (.record [("orderings", .list (ts.map OrderTerm.tree))]) ts := by
  intro depth h
  obtain ⟨d, rfl, hfields⟩ := Tree.exists_of_depth_record h
  obtain ⟨d, rfl, hitems⟩ := Tree.exists_of_depth_list (List.forall_mem_cons.1 hfields).1
  have hterms := ReadsBack.mapM (fun t _ => OrderTerm.readsBack t) hitems
  rw [OrderTerm.listOfTree?]
  simp [-Option.bind_eq_bind, Tree.fieldsOf?_record, hterms]

theorem LikeOptions.readsBack (o : LikeOptions) : ReadsBack LikeOptions.ofTree? o.tree o := by
  intro depth h
  rw [LikeOptions.tree] at h ⊢
  obtain ⟨d, rfl, -⟩ := Tree.exists_of_depth_record h
  rw [LikeOptions.ofTree?]
  simp [-Option.bind_eq_bind, Tree.fieldsOf?_record]

theorem JoinCondition.readsBack (c : JoinCondition) :
    ReadsBack JoinCondition.ofTree? c.tree c := by
  intro depth h
  rw [JoinCondition.tree] at h ⊢
  obtain ⟨d, rfl, -⟩ := Tree.exists_of_depth_record h
  rw [JoinCondition.ofTree?]
  simp [-Option.bind_eq_bind, Tree.fieldsOf?_record]

theorem JoinTerm.readsBack (t : JoinTerm) : ReadsBack JoinTerm.ofTree? t.tree t := by
  intro depth h
  rw [JoinTerm.tree] at h ⊢
  obtain ⟨d, rfl, hfields⟩ := Tree.exists_of_depth_record h
  have hcondition := t.condition.readsBack d (List.forall_mem_cons.1 hfields).1
  rw [JoinTerm.ofTree?]
  simp [-Option.bind_eq_bind, Tree.fieldsOf?_record, hcondition]

/-! ## Parts with nested queries -/

theorem Join.trees_eq_map (js : List Join) : Join.trees js = js.map Join.tree := by
  induction js with
  | nil => rfl
  | cons j js ih => rw [Join.trees, ih, List.map_cons]

theorem Predicate.trees_eq_map (ps : List Predicate) :
    Predicate.trees ps = ps.map Predicate.tree := by
  induction ps with
  | nil => rfl
  | cons p ps ih => rw [Predicate.trees, ih, List.map_cons]

/-- The document of a HAVING predicate. -/
def HavingEntry.tree (e : HavingEntry) : Tree :=
  .record [("logic", .text e.connective.name), ("predicate", e.predicate.tree)]

theorem HavingEntry.trees_eq_map (es : List HavingEntry) :
    HavingEntry.trees es = es.map HavingEntry.tree := by
  induction es with
  | nil => rfl
  | cons e es ih =>
      rcases e with ⟨connective, predicate⟩
      rw [HavingEntry.trees, ih, List.map_cons, HavingEntry.tree]

theorem Source.tree_values (rows : List (List Value)) (aliases : Option (List String))
    (name : String) :
    (Source.values rows aliases name).tree = .variant "Values" (.record [
      ("rows", .list (rows.map fun row => .list (row.map Value.tree))),
      ("aliases", aliases.elim .null Tree.ofTexts), ("name", .text name)]) := by
  cases aliases <;> rw [Source.tree] <;> rfl

namespace ReadsBack

/-- A query is read back if its clauses are. -/
theorem query {source : Source} {projection : Projection} {joins : List Join}
    {conditions : List Predicate} (columns : List String) {having : List HavingEntry}
    (ordering : List OrderTerm) (hsource : ReadsBack Source.ofTree? source.tree source)
    (hprojection : ReadsBack Projection.ofTree? projection.tree projection)
    (hjoins : ∀ j ∈ joins, ReadsBack Join.ofTree? j.tree j)
    (hconditions : ∀ p ∈ conditions, ReadsBack Predicate.ofTree? p.tree p)
    (hhaving : ∀ e ∈ having, ReadsBack HavingEntry.ofTree? e.tree e) :
    let q : Query := ⟨source, projection, joins, conditions, ⟨columns, having⟩, ordering⟩
    ReadsBack Query.ofTree? q.tree q := by
  intro q depth h
  rw [Query.tree, Grouping.tree, Join.trees_eq_map, Predicate.trees_eq_map,
    HavingEntry.trees_eq_map] at h ⊢
  obtain ⟨d, rfl, hfields⟩ := Tree.exists_of_depth_record h
  simp only [List.forall_mem_cons] at hfields
  obtain ⟨hs, hp, hj, hc, hg, ho, -⟩ := hfields
  -- the joins are there even if they are empty, so their list opens the third level
  obtain ⟨d, rfl, hjfields⟩ := Tree.exists_of_depth_record hj
  obtain ⟨d, rfl, hjitems⟩ := Tree.exists_of_depth_list (List.forall_mem_cons.1 hjfields).1
  simp only [Tree.depth_record_le, List.forall_mem_cons, Tree.depth_list_le] at hc hg
  have hjoins := ReadsBack.mapM hjoins hjitems
  have hconditions := ReadsBack.mapM hconditions hc.1
  have hhaving := ReadsBack.mapM hhaving hg.2.1
  rw [Query.ofTree?]
  simp [q, -Option.bind_eq_bind, Tree.fieldsOf?_record, hsource _ hs, hprojection _ hp, hjoins,
    hconditions, hhaving, OrderTerm.readsBack_list ordering _ ho]

theorem table (name : String) (asName : Option String) :
    ReadsBack Source.ofTree? (Source.table name asName).tree (.table name asName) := by
  intro depth h
  rw [Source.tree] at h ⊢
  obtain ⟨d, rfl, hrecord⟩ := Tree.exists_of_depth_variant h
  obtain ⟨d, rfl, -⟩ := Tree.exists_of_depth_record hrecord
  rw [Source.ofTree?, Tree.variant?_variant, some_bind]
  simp [-Option.bind_eq_bind, Tree.fieldsOf?_record]

theorem values {rows : List (List Value)} (aliases : Option (List String)) (name : String)
    (hfinite : ∀ v ∈ rows.flatten, v.IsFinite) :
    ReadsBack Source.ofTree? (Source.values rows aliases name).tree
      (.values rows aliases name) := by
  intro depth h
  have hrow (row : List Value) (hmem : row ∈ rows) (v : Value) (hv : v ∈ row) : v.IsFinite :=
    hfinite v (List.mem_flatten.2 ⟨row, hmem, hv⟩)
  rw [Source.tree_values] at h ⊢
  obtain ⟨d, rfl, hrecord⟩ := Tree.exists_of_depth_variant h
  obtain ⟨d, rfl, hfields⟩ := Tree.exists_of_depth_record hrecord
  obtain ⟨d, rfl, hitems⟩ := Tree.exists_of_depth_list (List.forall_mem_cons.1 hfields).1
  -- a row is a list of its own and enters one more level, but only if there is a row
  have hrows : (rows.map fun row => Tree.list (row.map Value.tree)).mapM
      (Tree.valuesWithin? d) = some rows := by
    refine mapM_map_of_forall fun row hmem => ?_
    obtain ⟨d, rfl, -⟩ := Tree.exists_of_depth_list (hitems _ (List.mem_map_of_mem hmem))
    exact Tree.valuesWithin?_list (hrow row hmem) (Nat.succ_ne_zero d)
  have haliases := Tree.textsOrNullWithin?_elim aliases (Nat.succ_ne_zero d)
  rw [Source.ofTree?, Tree.variant?_variant, some_bind]
  simp [-Option.bind_eq_bind, Tree.fieldsOf?_record, Tree.itemsWithin?_list, hrows, haliases]

theorem source {q : Query} (asName : Option String) (hq : ReadsBack Query.ofTree? q.tree q) :
    ReadsBack Source.ofTree? (Source.query q asName).tree (.query q asName) := by
  intro depth h
  rw [Source.tree] at h ⊢
  obtain ⟨d, rfl, hrecord⟩ := Tree.exists_of_depth_variant h
  obtain ⟨d, rfl, hfields⟩ := Tree.exists_of_depth_record hrecord
  have hquery := hq d (List.forall_mem_cons.1 hfields).1
  rw [Source.ofTree?, Tree.variant?_variant, some_bind]
  simp [-Option.bind_eq_bind, Tree.fieldsOf?_record, hquery]

theorem joinTable (name : String) :
    ReadsBack JoinTarget.ofTree? (JoinTarget.table name).tree (.table name) := by
  intro depth h
  rw [JoinTarget.tree] at h ⊢
  obtain ⟨d, rfl, -⟩ := Tree.exists_of_depth_variant h
  rw [JoinTarget.ofTree?, Tree.variant?_variant, some_bind]
  simp

theorem joinTarget {q : Query} (hq : ReadsBack Query.ofTree? q.tree q) :
    ReadsBack JoinTarget.ofTree? (JoinTarget.query q).tree (.query q) := by
  intro depth h
  rw [JoinTarget.tree] at h ⊢
  obtain ⟨d, rfl, hpayload⟩ := Tree.exists_of_depth_variant h
  have hquery := hq d hpayload
  rw [JoinTarget.ofTree?, Tree.variant?_variant, some_bind]
  simp [hquery]

theorem join {target : JoinTarget} (kind : JoinKind) (conditions : List JoinTerm)
    (asName : String) (htarget : ReadsBack JoinTarget.ofTree? target.tree target) :
    let j : Join := ⟨target, kind, conditions, asName⟩
    ReadsBack Join.ofTree? j.tree j := by
  intro j depth h
  rw [Join.tree] at h ⊢
  obtain ⟨d, rfl, hfields⟩ := Tree.exists_of_depth_record h
  simp only [List.forall_mem_cons] at hfields
  obtain ⟨ht, -, hc, -⟩ := hfields
  have htarget := htarget d ht
  obtain ⟨d, rfl, hitems⟩ := Tree.exists_of_depth_list hc
  have hconditions := ReadsBack.mapM (fun t _ => JoinTerm.readsBack t) hitems
  rw [Join.ofTree?]
  simp [j, -Option.bind_eq_bind, Tree.fieldsOf?_record, Tree.itemsWithin?_list, htarget,
    hconditions]

theorem set {q : Query} (hq : ReadsBack Query.ofTree? q.tree q) :
    ReadsBack SetSource.ofTree? (SetSource.query q).tree (.query q) := by
  intro depth h
  rw [SetSource.tree] at h ⊢
  obtain ⟨d, rfl, hpayload⟩ := Tree.exists_of_depth_variant h
  have hquery := hq d hpayload
  rw [SetSource.ofTree?, Tree.variant?_variant, some_bind]
  simp [hquery]

theorem setValues {vs : List Value} (hfinite : ∀ v ∈ vs, v.IsFinite) :
    ReadsBack SetSource.ofTree? (SetSource.values vs).tree (.values vs) := by
  intro depth h
  rw [SetSource.tree] at h ⊢
  obtain ⟨d, rfl, hpayload⟩ := Tree.exists_of_depth_variant h
  obtain ⟨d, rfl, -⟩ := Tree.exists_of_depth_list hpayload
  have hvalues := Tree.valuesWithin?_list hfinite (Nat.succ_ne_zero d)
  rw [SetSource.ofTree?, Tree.variant?_variant, some_bind]
  simp [hvalues]

/-- A predicate is read back if it is as soon as its variant and the record of its fields
have been entered. -/
theorem predicate {p : Predicate} {name : String} {fields : List (String × Tree)}
    (htree : p.tree = .variant name (.record fields))
    (hread : ∀ d, (∀ e ∈ fields, e.2.depth ≤ d) →
      Predicate.ofTree? (d + 2) (.variant name (.record fields)) = some p) :
    ReadsBack Predicate.ofTree? p.tree p := by
  intro depth h
  rw [htree] at h ⊢
  obtain ⟨d, rfl, hrecord⟩ := Tree.exists_of_depth_variant h
  obtain ⟨d, rfl, hfields⟩ := Tree.exists_of_depth_record hrecord
  exact hread d hfields

theorem anyOf {ps : List Predicate}
    (hps : ∀ p ∈ ps, ReadsBack Predicate.ofTree? p.tree p) :
    ReadsBack Predicate.ofTree? (Predicate.anyOf ps).tree (.anyOf ps) := by
  intro depth h
  rw [Predicate.tree, Predicate.trees_eq_map] at h ⊢
  obtain ⟨d, rfl, hpayload⟩ := Tree.exists_of_depth_variant h
  obtain ⟨d, rfl, hitems⟩ := Tree.exists_of_depth_list hpayload
  have hparts := ReadsBack.mapM hps hitems
  rw [Predicate.ofTree?, Tree.variant?_variant, some_bind]
  simp [hparts]

theorem havingEntry {predicate : Predicate} (connective : Connective)
    (hpredicate : ReadsBack Predicate.ofTree? predicate.tree predicate) :
    let e : HavingEntry := ⟨connective, predicate⟩
    ReadsBack HavingEntry.ofTree? e.tree e := by
  intro e depth h
  rw [HavingEntry.tree] at h ⊢
  obtain ⟨d, rfl, hfields⟩ := Tree.exists_of_depth_record h
  simp only [List.forall_mem_cons] at hfields
  have hpredicate := hpredicate d hfields.2.1
  rw [HavingEntry.ofTree?]
  simp [e, -Option.bind_eq_bind, Tree.fieldsOf?_record, hpredicate]

end ReadsBack

mutual

/-- A query whose numbers are finite is read back from its document. -/
theorem Query.readsBack :
    (q : Query) → (∀ v ∈ q.allValues, v.IsFinite) → ReadsBack Query.ofTree? q.tree q
  | ⟨source, projection, joins, conditions, ⟨columns, having⟩, ordering⟩, hfinite => by
      simp only [Query.allValues, Grouping.allValues, List.forall_mem_append] at hfinite
      obtain ⟨⟨⟨⟨hsource, hprojection⟩, hjoins⟩, hconditions⟩, hhaving⟩ := hfinite
      exact ReadsBack.query columns ordering (Source.readsBack source hsource)
        (Projection.readsBack hprojection) (Join.readsBack_list joins hjoins)
        (Predicate.readsBack_list conditions hconditions)
        (HavingEntry.readsBack_list having hhaving)

theorem Source.readsBack :
    (s : Source) → (∀ v ∈ s.allValues, v.IsFinite) → ReadsBack Source.ofTree? s.tree s
  | .table name asName, _ => .table name asName
  | .values _ aliases name, hfinite => .values aliases name hfinite
  | .query q asName, hfinite => .source asName (Query.readsBack q hfinite)

theorem JoinTarget.readsBack : (t : JoinTarget) → (∀ v ∈ t.allValues, v.IsFinite) →
    ReadsBack JoinTarget.ofTree? t.tree t
  | .table name, _ => .joinTable name
  | .query q, hfinite => .joinTarget (Query.readsBack q hfinite)

theorem Join.readsBack_list : (js : List Join) → (∀ v ∈ Join.allValuesOf js, v.IsFinite) →
    ∀ j ∈ js, ReadsBack Join.ofTree? j.tree j
  | [], _ => by simp
  | ⟨target, kind, conditions, asName⟩ :: js, hfinite => by
      rw [Join.allValuesOf, Join.allValues, List.forall_mem_append] at hfinite
      exact List.forall_mem_cons.2
        ⟨.join kind conditions asName (JoinTarget.readsBack target hfinite.1),
          Join.readsBack_list js hfinite.2⟩

theorem SetSource.readsBack : (s : SetSource) → (∀ v ∈ s.allValues, v.IsFinite) →
    ReadsBack SetSource.ofTree? s.tree s
  | .values _, hfinite => .setValues hfinite
  | .query q, hfinite => .set (Query.readsBack q hfinite)

theorem Predicate.readsBack :
    (p : Predicate) → (∀ v ∈ p.allValues, v.IsFinite) → ReadsBack Predicate.ofTree? p.tree p
  | .comparison column op value negated, hfinite => by
      have hvalue := Value.ofTree?_tree (hfinite value List.mem_cons_self)
      refine .predicate (by rw [Predicate.tree]) fun d _ => ?_
      rw [Predicate.ofTree?, Tree.variant?_variant, some_bind]
      simp [-Option.bind_eq_bind, Tree.fieldsOf?_record, hvalue]
  | .columnComparison column op other negated, _ => by
      refine .predicate (by rw [Predicate.tree]) fun d _ => ?_
      rw [Predicate.ofTree?, Tree.variant?_variant, some_bind]
      simp [-Option.bind_eq_bind, Tree.fieldsOf?_record]
  | .nullCheck column negated, _ => by
      refine .predicate (by rw [Predicate.tree]) fun d _ => ?_
      rw [Predicate.ofTree?, Tree.variant?_variant, some_bind]
      simp [-Option.bind_eq_bind, Tree.fieldsOf?_record]
  | .fullText column value negated, _ => by
      refine .predicate (by rw [Predicate.tree]) fun d _ => ?_
      rw [Predicate.ofTree?, Tree.variant?_variant, some_bind]
      simp [-Option.bind_eq_bind, Tree.fieldsOf?_record]
  | .pattern column value negated options, _ => by
      refine .predicate (by rw [Predicate.tree]) fun d hfields => ?_
      simp only [List.forall_mem_cons] at hfields
      have hoptions := options.readsBack d hfields.2.2.2.1
      rw [Predicate.ofTree?, Tree.variant?_variant, some_bind]
      simp [-Option.bind_eq_bind, Tree.fieldsOf?_record, hoptions]
  | .inSet column source negated, hfinite => by
      refine .predicate (by rw [Predicate.tree]) fun d hfields => ?_
      simp only [List.forall_mem_cons] at hfields
      have hsource := SetSource.readsBack source hfinite d hfields.2.1
      rw [Predicate.ofTree?, Tree.variant?_variant, some_bind]
      simp [-Option.bind_eq_bind, Tree.fieldsOf?_record, hsource]
  | .anyOf ps, hfinite => .anyOf (Predicate.readsBack_list ps hfinite)

theorem Predicate.readsBack_list : (ps : List Predicate) →
    (∀ v ∈ Predicate.allValuesOf ps, v.IsFinite) →
    ∀ p ∈ ps, ReadsBack Predicate.ofTree? p.tree p
  | [], _ => by simp
  | p :: ps, hfinite => by
      rw [Predicate.allValuesOf, List.forall_mem_append] at hfinite
      exact List.forall_mem_cons.2
        ⟨Predicate.readsBack p hfinite.1, Predicate.readsBack_list ps hfinite.2⟩

theorem HavingEntry.readsBack_list : (es : List HavingEntry) →
    (∀ v ∈ HavingEntry.allValuesOf es, v.IsFinite) →
    ∀ e ∈ es, ReadsBack HavingEntry.ofTree? e.tree e
  | [], _ => by simp
  | ⟨connective, predicate⟩ :: es, hfinite => by
      rw [HavingEntry.allValuesOf, List.forall_mem_append] at hfinite
      exact List.forall_mem_cons.2
        ⟨.havingEntry connective (Predicate.readsBack predicate hfinite.1),
          HavingEntry.readsBack_list es hfinite.2⟩

end

end SelectSql
