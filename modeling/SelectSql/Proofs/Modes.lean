import SelectSql.Proofs.Doc.Statement

/-!
# SelectSql.Proofs.Modes

The two modes write the same statement around the values. A template is cut at its
values into pieces; the text of either mode is these pieces with the slots of the mode
between them.

Main statement: the bound and the inline text of a query have the same pieces, with
the placeholders from 1 on and with the literals of the bound values between them
(`Query.exists_pieces`).
-/

namespace SelectSql

/-! ## Pieces -/

/-- Pieces of text with fillers between them: `t₀ f₁ t₁ … fₙ tₙ`. -/
def weave : List String → List String → String
  | [], _ => ""
  | t :: ts, [] => t ++ weave ts []
  | t :: ts, f :: fs => t ++ (f ++ weave ts fs)

/-- Puts a character in front of the first piece. -/
def consPiece (c : Char) : List String → List String
  | [] => [String.singleton c]
  | t :: ts => (String.singleton c ++ t) :: ts

namespace Template

/-- The texts before, between and behind the values of a template. -/
def pieces : Template → List String
  | [] => [""]
  | .char c :: t => consPiece c (pieces t)
  | .value _ :: t => "" :: pieces t

/-- The slots of values behind `k` others. -/
def slots (r : Rendering) : Nat → List Value → List String
  | _, [] => []
  | k, v :: vs => String.ofList (r.slot k v) :: slots r (k + 1) vs

theorem pieces_ne_nil (t : Template) : pieces t ≠ [] := by
  cases t with
  | nil => simp [pieces]
  | cons x t =>
      cases x with
      | char c => cases h : pieces t <;> simp [pieces, consPiece, h]
      | value v => simp [pieces]

/-- There is one piece more than there are values. -/
theorem length_pieces (t : Template) : (pieces t).length = (values t).length + 1 := by
  induction t with
  | nil => rfl
  | cons x t ih =>
      cases x with
      | char c =>
          have hlen : (consPiece c (pieces t)).length = (pieces t).length := by
            cases h : pieces t with
            | nil => exact absurd h (pieces_ne_nil t)
            | cons p ps => rfl
          rw [pieces, hlen, ih, values_char]
      | value v => rw [pieces, List.length_cons, ih, values_value, List.length_cons]

theorem toList_weave_consPiece {ts : List String} (h : ts ≠ []) (c : Char) (fs : List String) :
    (weave (consPiece c ts) fs).toList = c :: (weave ts fs).toList := by
  cases ts with
  | nil => exact absurd rfl h
  | cons t ts => cases fs <;> simp [consPiece, weave]

/-- A rendered template is its pieces with the slots of its values between them. -/
theorem toList_weave_pieces (r : Rendering) (k : Nat) (t : Template) :
    (weave (pieces t) (slots r k (values t))).toList = render r k t := by
  induction t generalizing k with
  | nil => rfl
  | cons x t ih =>
      cases x with
      | char c =>
          rw [pieces, values_char, toList_weave_consPiece (pieces_ne_nil t), ih, render]
      | value v => simp [pieces, slots, weave, render, ih]

/-- In bound mode the slots are the placeholders in order. -/
theorem slots_bound (d : Dialect) (k : Nat) (vs : List Value) :
    slots ⟨d, .bound⟩ k vs = (List.range' k vs.length).map fun i => d.placeholder (i + 1) := by
  induction vs generalizing k with
  | nil => rfl
  | cons v vs ih =>
      rw [slots, ih, List.length_cons, List.range'_succ, List.map_cons]
      congr 1
      exact String.ofList_toList

/-- In inline mode the slots are the literals of the values. -/
theorem slots_inline (d : Dialect) (k : Nat) (vs : List Value) :
    slots ⟨d, .inline⟩ k vs = vs.map d.literal := by
  induction vs generalizing k with
  | nil => rfl
  | cons v vs ih =>
      rw [slots, ih, List.map_cons]
      congr 1
      exact String.ofList_toList

end Template

/-! ## Statements -/

namespace Query

/-- The template of a query for an engine. -/
def template (q : Query) (d : Dialect) : Template :=
  (q.doc d).template d

/-- A text that both modes share is the rendered template of the query. -/
theorem text_doc {q : Query} (h : ∀ l ∈ q.leaves, l.Balanced) (r : Rendering) :
    String.ofList ((q.doc r.dialect).text r 0) =
      weave (q.template r.dialect).pieces
        (Template.slots r 0 (q.template r.dialect).values) := by
  rw [← Query.leaves_doc r.dialect] at h
  rw [Doc.text_eq_render h, ← Template.toList_weave_pieces, String.ofList_toList]
  rfl

/-- **The bound and the inline text of a query are the same pieces**, with the
placeholders from 1 on between them in one and the literals of the bound values in the
other. Quotes in the texts of the caller are balanced, and no escape character is a
quote. -/
theorem exists_pieces (q : Query) (d : Dialect) (h : ∀ l ∈ q.leaves, l.Balanced) :
    ∃ pieces : List String, pieces.length = (q.compile d).params.length + 1 ∧
      (q.compile d).sql = weave pieces
        ((List.range (q.compile d).params.length).map fun i => d.placeholder (i + 1)) ∧
      q.inline d = weave pieces ((q.compile d).params.map d.literal) := by
  have hvalues : (q.template d).values = (q.doc d).values := Doc.values_template d (q.doc d)
  refine ⟨(q.template d).pieces, ?_, ?_, ?_⟩
  · rw [Template.length_pieces, hvalues, compile_eq]
  · rw [compile_eq, text_doc h ⟨d, .bound⟩, Template.slots_bound, hvalues,
      List.range_eq_range']
  · rw [inline_eq, text_doc h ⟨d, .inline⟩, Template.slots_inline, hvalues, compile_eq]

/-- A query with nested queries in every place, whose values hold quotes and blanks. -/
def nestedSample : Query :=
  ⟨.query (table "t" none) (some "s"),
    { columns := [.raw "?  + ?" [.int 1, .text "it''s  so"] false] },
    [⟨.query ⟨.table "u" none, {}, [], [.comparison "a" .eq (.text "x  ' y") false],
        ⟨[], []⟩, []⟩, .left, [⟨⟨"s.id", .eq, "j.id"⟩, none⟩], "j"⟩],
    [.inSet "b" (.query ⟨.table "v" none, {}, [], [.comparison "c" .lt (.bool true) true],
        ⟨[], []⟩, []⟩) false],
    ⟨[], []⟩, []⟩

theorem exists_pieces_nestedSample :
    (∀ l ∈ nestedSample.leaves, l.Balanced) ∧
    ∃ pieces : List String,
      pieces.length = (nestedSample.compile .sqlServer).params.length + 1 ∧
      (nestedSample.compile .sqlServer).sql = weave pieces
        ((List.range (nestedSample.compile .sqlServer).params.length).map fun i =>
          Dialect.sqlServer.placeholder (i + 1)) ∧
      nestedSample.inline .sqlServer =
        weave pieces ((nestedSample.compile .sqlServer).params.map Dialect.sqlServer.literal) :=
  have h : ∀ l ∈ nestedSample.leaves, l.Balanced := by decide
  ⟨h, exists_pieces nestedSample .sqlServer h⟩

end Query

end SelectSql
