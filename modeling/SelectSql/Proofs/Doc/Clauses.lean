import SelectSql.Proofs.Writing

/-!
# SelectSql.Proofs.Doc.Clauses

The trees of the parts of a statement that hold no nested query, and that writing these
parts gives the texts of their trees.
-/

namespace SelectSql

/-! ## Columns -/

/-- The tree of a column. -/
def Column.doc : Column → Doc
  | .raw sql params _ => .leaf (.fragment sql params)
  | .named name table asName =>
    let locator := match table with
      | some t => Doc.name t ++ (Doc.word "." ++ Doc.name name)
      | none => Doc.name name
    match asName with
    | some a => .parens locator ++ (Doc.asWord ++ Doc.name a)
    | none => locator
  | .aggregate function operand asName =>
    let call := .own function.keyword (by cases function <;> decide) ++ .parens (Doc.name operand)
    match asName with
    | some a => call ++ (Doc.space ++ Doc.name a)
    | none => call

theorem Column.writes (r : Rendering) (c : Column) : Writes r (c.write r) c.doc := by
  cases c with
  | raw sql params standalone =>
      intro d k hk
      exact Yields.cast (Yields.splice hk sql params) (by simp [Column.doc, Doc.values, Doc.leaves])
  | named name table asName =>
      cases table <;> cases asName <;>
        exact Writes.pure (fun k => by simp [Column.text, Column.doc, toString])
          (by simp [Column.doc])
  | aggregate function operand asName =>
      cases asName <;>
        exact Writes.pure (fun k => by simp [Column.text, Column.doc, toString])
          (by simp [Column.doc])

theorem Column.writesAll (r : Rendering) (cs : List Column) :
    WritesAll r (Column.writeAll r cs) (cs.map Column.doc) := by
  induction cs with
  | nil => exact WritesAll.nil r
  | cons c cs ih => exact WritesAll.cons (Column.writes r c) ih

/-- The tree of the list of columns. -/
def Projection.doc (p : Projection) : Doc :=
  (if p.distinct then Doc.word "DISTINCT " else Doc.empty) ++
    (if p.columns.isEmpty then Doc.word "*" else Doc.sep Doc.comma (p.columns.map Column.doc))

theorem Projection.writes (r : Rendering) (p : Projection) : Writes r (p.write r) p.doc := by
  rcases p with ⟨columns, distinct⟩
  rw [Projection.write, Projection.doc]
  dsimp only
  cases hc : columns.isEmpty with
  | true =>
      cases distinct <;> exact Writes.pure (fun k => by simp [Doc.empty]) (by simp [Doc.empty])
  | false =>
      intro d k hk
      refine Yields.cast (Yields.bind hk (Column.writesAll r columns d k hk) fun _ _ =>
        Yields.done ?_) (by cases distinct <;> simp [Doc.empty])
      cases distinct <;> simp [Doc.empty, Function.comp_def]

/-! ## Values and rows -/

/-- The tree of a value. -/
def Value.doc (v : Value) : Doc :=
  .leaf (.value v)

theorem Rendering.writesAll_bindAll (r : Rendering) (vs : List Value) :
    WritesAll r (r.bindAll vs) (vs.map Value.doc) := by
  induction vs with
  | nil => exact WritesAll.nil r
  | cons v vs ih =>
      refine WritesAll.cons (fun d k hk => ?_) ih
      rw [Value.doc, Doc.text_value]
      exact Yields.bindValue hk v

/-- The tree of a row of a matrix. -/
def Source.rowDoc (row : List Value) : Doc :=
  .parens (Doc.sep Doc.comma (row.map fun v => .parens v.doc))

theorem Doc.texts_parens (r : Rendering) (k : Nat) (as : List Doc) :
    Doc.texts r k (as.map .parens) = (Doc.texts r k as).map fun t => '(' :: (t ++ [')']) := by
  induction as generalizing k with
  | nil => rfl
  | cons a as ih => simp [Doc.texts, ih]

theorem Source.writesAll_writeRows (r : Rendering) (rows : List (List Value)) :
    WritesAll r (Source.writeRows r rows) (rows.map Source.rowDoc) := by
  induction rows with
  | nil => exact WritesAll.nil r
  | cons row rows ih =>
      have hrow : Writes r (do
          let cells ← r.bindAll row
          return "(" ++ ", ".intercalate (cells.map fun c => "(" ++ c ++ ")") ++ ")")
          (Source.rowDoc row) := by
        intro d k hk
        refine Yields.cast (Yields.bind hk (r.writesAll_bindAll row d k hk) fun _ _ =>
          Yields.done ?_) (by simp [Source.rowDoc, List.flatMap_map])
        have hparens : row.map (fun v => Doc.parens v.doc) = (row.map Value.doc).map .parens := by
          simp
        rw [Source.rowDoc, hparens, Doc.text_parens, Doc.text_sep, Doc.texts_parens]
        simp [Function.comp_def]
      have h := WritesAll.cons hrow ih
      intro d k hk
      have hd := h d k hk
      rw [Source.writeRows]
      simpa using hd

/-! ## Join conditions -/

/-- Trees one behind the other. -/
def Doc.concat : List Doc → Doc
  | [] => .empty
  | a :: as => a ++ Doc.concat as

@[simp] theorem Doc.values_concat_list (as : List Doc) :
    (Doc.concat as).values = as.flatMap Doc.values := by
  induction as with
  | nil => rfl
  | cons a as ih => simp [Doc.concat, ih]

/-- The operator of a comparison. -/
def Operator.doc (op : Operator) : Doc :=
  .own op.symbol (by cases op <;> decide)

/-- A word that combines conditions. -/
def Connective.doc (c : Connective) : Doc :=
  .own c.keyword (by cases c <;> decide)

/-- The tree of a term of the ON clause, a blank in front of every part. -/
def JoinTerm.doc (t : JoinTerm) : Doc :=
  (match t.connective with
    | some c => Doc.space ++ c.doc
    | none => .empty) ++ (Doc.space ++ (Doc.name t.condition.left ++ (Doc.space ++
      (t.condition.op.doc ++ (Doc.space ++ Doc.name t.condition.right)))))

/-- The tree of the ON clause. -/
def JoinTerm.clauseDoc (terms : List JoinTerm) : Doc :=
  if terms.isEmpty then .empty else Doc.word " ON" ++ Doc.concat (terms.map JoinTerm.doc)

@[simp] theorem JoinTerm.values_doc (t : JoinTerm) : t.doc.values = [] := by
  rcases t with ⟨condition, connective⟩
  cases connective <;> simp [JoinTerm.doc, Connective.doc, Operator.doc, Doc.empty]

theorem JoinTerm.values_clauseDoc (terms : List JoinTerm) :
    (JoinTerm.clauseDoc terms).values = [] := by
  rw [JoinTerm.clauseDoc]
  split <;> simp [Doc.empty, List.flatMap_map]

theorem JoinTerm.text_concat (r : Rendering) (k : Nat) (terms : List JoinTerm) :
    (Doc.concat (terms.map JoinTerm.doc)).text r k =
      terms.flatMap fun t => ((match t.connective with
        | some word => " " ++ word.keyword
        | none => "") ++ " " ++ t.condition.text).toList := by
  induction terms generalizing k with
  | nil => simp [Doc.concat, Doc.empty]
  | cons t terms ih =>
      rcases t with ⟨condition, connective⟩
      rw [List.map_cons, Doc.concat, Doc.text_append, ih, List.flatMap_cons]
      cases connective <;>
        simp [JoinTerm.doc, JoinCondition.text, Connective.doc, Operator.doc, Doc.empty, toString]

theorem JoinTerm.text_clauseDoc (r : Rendering) (k : Nat) (terms : List JoinTerm) :
    (JoinTerm.clauseDoc terms).text r k = (JoinTerm.onClause terms).toList := by
  rw [JoinTerm.clauseDoc, JoinTerm.onClause]
  split
  · simp [Doc.empty]
  · rw [Doc.text_append, String.toList_append, String.toList_join, List.flatMap_map,
      Doc.text_word]
    exact congrArg (" ON".toList ++ ·) (JoinTerm.text_concat r _ terms)

/-! ## Ordering and grouping -/

/-- The tree of an item of the ORDER BY clause. -/
def OrderTerm.doc (t : OrderTerm) : Doc :=
  Doc.name t.column ++ (if t.ascending then Doc.word " ASC" else Doc.word " DESC")

/-- The tree of the ORDER BY clause. -/
def OrderTerm.clauseDoc (terms : List OrderTerm) : Doc :=
  if terms.isEmpty then .empty
  else Doc.word "ORDER BY " ++ Doc.sep Doc.comma (terms.map OrderTerm.doc)

@[simp] theorem OrderTerm.values_doc (t : OrderTerm) : t.doc.values = [] := by
  rw [OrderTerm.doc]
  split <;> simp

theorem OrderTerm.values_clauseDoc (terms : List OrderTerm) :
    (OrderTerm.clauseDoc terms).values = [] := by
  rw [OrderTerm.clauseDoc]
  split <;> simp [Doc.empty, List.flatMap_map]

theorem OrderTerm.texts_doc (r : Rendering) (k : Nat) (terms : List OrderTerm) :
    Doc.texts r k (terms.map OrderTerm.doc) = terms.map fun t => t.text.toList := by
  induction terms generalizing k with
  | nil => rfl
  | cons t terms ih =>
      rcases t with ⟨column, ascending⟩
      rw [List.map_cons, Doc.texts, ih, List.map_cons]
      cases ascending <;> simp [OrderTerm.doc, OrderTerm.text]

theorem OrderTerm.text_clauseDoc (r : Rendering) (k : Nat) (terms : List OrderTerm) :
    (OrderTerm.clauseDoc terms).text r k = (OrderTerm.clause terms).toList := by
  rw [OrderTerm.clauseDoc, OrderTerm.clause]
  split
  · simp [Doc.empty]
  · simp [OrderTerm.texts_doc, Function.comp_def]

theorem Doc.texts_name (r : Rendering) (k : Nat) (names : List String) :
    Doc.texts r k (names.map Doc.name) = names.map String.toList := by
  induction names generalizing k with
  | nil => rfl
  | cons s names ih => simp [Doc.texts, ih]

/-! ## Text matching -/

/-- The tree of a number. -/
def Doc.number (n : Nat) : Doc :=
  .own (toString n) (by
    rw [Nat.toString_eq_ofList_toDigits, String.toList_ofList, List.all_eq_true]
    intro c hc
    have hall : ∀ d ∈ Text.digits, isOwnChar d = true := by decide
    exact hall c (Text.mem_digits_of_isDigit
      (Nat.isDigit_of_mem_toDigits (by decide) (by decide) hc)))

/-- The parts of a condition, with spaces between them. -/
def Doc.spaces (parts : List Doc) : Doc :=
  Doc.sep Doc.space parts

/-- The word for a negation. -/
def Doc.nots (negated : Bool) : List Doc :=
  if negated then [Doc.word "NOT"] else []

/-- The tree of a call of a function. -/
def Doc.call (function : String) (a : Doc)
    (plain : function.toList.all isOwnChar = true := by decide) : Doc :=
  .own function plain ++ .parens a

@[simp] theorem Doc.text_call (r : Rendering) (k : Nat) (function : String) (a : Doc)
    (h : function.toList.all isOwnChar = true) :
    (Doc.call function a h).text r k = function.toList ++ '(' :: (a.text r k ++ [')']) := by
  rw [Doc.call, Doc.text_append, Doc.text_own, Doc.text_parens]
  rfl

@[simp] theorem Doc.values_call (function : String) (a : Doc)
    (h : function.toList.all isOwnChar = true) : (Doc.call function a h).values = a.values := by
  rw [Doc.call, Doc.values_concat, Doc.values_own, Doc.values_parens, List.nil_append]

/-- The left side of a full text comparison. -/
def Dialect.compareDoc (d : Dialect) (column : String) (length : Nat) : Doc :=
  match d with
  | .sqlServer => Doc.call "CAST" (Doc.name column ++ (Doc.word " AS NVARCHAR" ++
      .parens (Doc.number (max length 1))))
  | _ => Doc.name column

@[simp] theorem Dialect.values_compareDoc (d : Dialect) (column : String) (length : Nat) :
    (d.compareDoc column length).values = [] := by
  cases d <;> simp [Dialect.compareDoc, Doc.number]

@[simp] theorem Dialect.text_compareDoc (r : Rendering) (k : Nat) (d : Dialect) (column : String)
    (length : Nat) :
    (d.compareDoc column length).text r k = (d.compareText column length).toList := by
  cases d <;> simp [Dialect.compareDoc, Dialect.compareText, Doc.number, toString]

/-- A side of a comparison, in a function that takes the accents away unless they count. -/
def Doc.accented (accentSensitive : Bool) (a : Doc) : Doc :=
  if accentSensitive then a else Doc.call "unaccent" a

/-- A side of a comparison, in a function that takes the case away unless it counts. -/
def Doc.cased (caseSensitive : Bool) (a : Doc) : Doc :=
  if caseSensitive then a else Doc.call "LOWER" a

/-- The collation that matches as the options ask for, in SQL Server. -/
def Dialect.sqlServerCollation (o : LikeOptions) : String :=
  match o.caseSensitive, o.accentSensitive with
  | true, true => "Latin1_General_CS_AS"
  | true, false => "Latin1_General_CS_AI"
  | false, true => "Latin1_General_CI_AS"
  | false, false => "Latin1_General_CI_AI"

theorem Dialect.plain_sqlServerCollation (o : LikeOptions) :
    (Dialect.sqlServerCollation o).toList.all isOwnChar = true := by
  unfold Dialect.sqlServerCollation
  split <;> decide

theorem Dialect.plain_mySqlCollation (o : LikeOptions) :
    (Dialect.mySqlCollation o).toList.all isOwnChar = true := by
  unfold Dialect.mySqlCollation
  split
  · decide
  · split <;> decide

/-- What stands in front of the operator of a pattern match. -/
def Dialect.columnParts (d : Dialect) (column : String) (o : LikeOptions) : List Doc :=
  match d with
  | .generic | .sqlite => [Doc.cased o.caseSensitive (Doc.name column)]
  | .mySql => [Doc.name column]
  | .postgres => [Doc.accented o.accentSensitive (Doc.name column)]
  | .sqlServer => [Doc.name column, Doc.word "COLLATE",
      .own (Dialect.sqlServerCollation o) (Dialect.plain_sqlServerCollation o)]

/-- The operator of a pattern match and what stands behind it. -/
def Dialect.patternParts (d : Dialect) (pattern : Value) (o : LikeOptions) : List Doc :=
  match d with
  | .generic | .sqlite => [Doc.word "LIKE", Doc.cased o.caseSensitive pattern.doc]
  | .mySql => [Doc.word "LIKE", pattern.doc, Doc.word "COLLATE",
      .own (Dialect.mySqlCollation o) (Dialect.plain_mySqlCollation o)]
  | .postgres => [if o.caseSensitive then Doc.word "LIKE" else Doc.word "ILIKE",
      Doc.accented o.accentSensitive pattern.doc]
  | .sqlServer => [Doc.word "LIKE", pattern.doc]

/-- The parts of a column matched with a pattern. -/
def Dialect.likeParts (d : Dialect) (column : String) (pattern : Value) (o : LikeOptions)
    (negated : Bool) : List Doc :=
  d.columnParts column o ++ (Doc.nots negated ++ (d.patternParts pattern o ++
    [Doc.word "ESCAPE", .leaf (.escape o.escape)]))

theorem Dialect.leaves_likeParts (d : Dialect) (column : String) (pattern : Value)
    (o : LikeOptions) (negated : Bool) :
    (d.likeParts column pattern o negated).flatMap Doc.leaves =
      [.text column, .value pattern, .escape o.escape] := by
  rcases o with ⟨caseSensitive, accentSensitive, escape⟩
  cases d <;> cases caseSensitive <;> cases accentSensitive <;> cases negated <;> rfl

theorem Dialect.values_likeParts (d : Dialect) (column : String) (pattern : Value)
    (o : LikeOptions) (negated : Bool) :
    (d.likeParts column pattern o negated).flatMap Doc.values = [pattern] := by
  rw [Doc.flatMap_values, leaves_likeParts]
  rfl

theorem Dialect.text_likeParts (r : Rendering) (k : Nat) (column : String) (pattern : Value)
    (o : LikeOptions) (negated : Bool) :
    (Doc.spaces (r.dialect.likeParts column pattern o negated)).text r k =
      (r.dialect.like column (String.ofList (r.slot k pattern)) o negated).toList := by
  rcases o with ⟨caseSensitive, accentSensitive, escape⟩
  rcases r with ⟨dialect, mode⟩
  rw [Doc.spaces, Doc.text_sep]
  -- every engine has words of its own for each choice of the options
  cases dialect <;> cases caseSensitive <;> cases accentSensitive <;> cases negated <;>
    simp [Dialect.likeParts, Dialect.columnParts, Dialect.patternParts, Dialect.like, Doc.nots,
      Doc.cased, Doc.accented, Value.doc, Doc.texts, Dialect.escapeClause,
      Dialect.escapeLiteral, Dialect.mySqlCollation, Dialect.sqlServerCollation,
      List.intercalate_cons_cons, toString]

end SelectSql
