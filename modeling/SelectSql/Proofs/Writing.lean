import SelectSql.Proofs.Doc

/-!
# SelectSql.Proofs.Writing

What a piece of writing does to a draft, stated once for both modes: it gives a
result and, in bound mode, appends values to those of the draft (`Yields`). A writer
*follows* a tree (`Writes`) if on every draft it gives the text of the tree behind the
values of the draft, and binds the values of the tree. Writers in a row follow trees in
a row (`Yields.bind`).
-/

namespace SelectSql

theorem Writing.run_bind {α β : Type} (w : Writing α) (f : α → Writing β) (d : Draft) :
    (w >>= f).run d = (f (w.run d).1).run (w.run d).2 := rfl

theorem Writing.run_pure {α : Type} (a : α) (d : Draft) :
    (Pure.pure a : Writing α).run d = (a, d) := rfl

/-- The values that a mode records. -/
def Rendering.recorded (r : Rendering) (vs : List Value) : List Value :=
  match r.mode with
  | .bound => vs
  | .inline => []

/-- A draft at a place that `k` values stand before. -/
def Rendering.Numbered (r : Rendering) (d : Draft) (k : Nat) : Prop :=
  r.mode = .bound → d.bound.length = k

/-- On a draft, `w` gives `a` and binds `vs`. -/
structure Yields {α : Type} (r : Rendering) (d : Draft) (w : Writing α) (a : α)
    (vs : List Value) : Prop where
  value : (w.run d).1 = a
  bound : (w.run d).2.bound = d.bound ++ r.recorded vs

variable {α β : Type} {r : Rendering} {d : Draft} {k : Nat}

@[simp] theorem Rendering.recorded_nil : r.recorded [] = [] := by
  cases hm : r.mode <;> simp [recorded, hm]

theorem Rendering.recorded_append (vs ws : List Value) :
    r.recorded (vs ++ ws) = r.recorded vs ++ r.recorded ws := by
  unfold recorded
  split <;> simp

theorem Rendering.recorded_cons (v : Value) (vs : List Value) :
    r.recorded (v :: vs) = r.recorded [v] ++ r.recorded vs :=
  Rendering.recorded_append [v] vs

/-- Behind `vs` the number of values has grown by theirs. -/
theorem Rendering.Numbered.after {d' : Draft} {vs : List Value} (h : r.Numbered d k)
    (hd : d'.bound = d.bound ++ r.recorded vs) : r.Numbered d' (k + vs.length) := by
  intro hm
  have hr : r.recorded vs = vs := by simp [recorded, hm]
  rw [hd, hr, List.length_append, h hm]

/-- Behind one value there is one more. -/
theorem Rendering.Numbered.next (h : r.Numbered d k) (v : Value) :
    r.Numbered { d with bound := d.bound ++ r.recorded [v] } (k + 1) := by
  have hlength : k + [v].length = k + 1 := rfl
  exact hlength ▸ h.after rfl

/-! ## Results in a row -/

namespace Yields

theorem pure (a : α) : Yields r d (Pure.pure a) a [] where
  value := rfl
  bound := by
    rw [Rendering.recorded_nil, List.append_nil]
    rfl

/-- One step after the other binds the values of both. -/
theorem bind {w : Writing α} {f : α → Writing β} {a : α} {b : β} {vs ws : List Value}
    (hk : r.Numbered d k) (hw : Yields r d w a vs)
    (hf : ∀ d', r.Numbered d' (k + vs.length) → Yields r d' (f a) b ws) :
    Yields r d (w >>= f) b (vs ++ ws) := by
  have hd := hf _ (hk.after hw.bound)
  have hrun : (w >>= f).run d = (f a).run (w.run d).2 := by
    rw [Writing.run_bind, hw.value]
  constructor
  · rw [hrun, hd.value]
  · rw [hrun, hd.bound, hw.bound, Rendering.recorded_append, List.append_assoc]

/-- A step that only takes notes binds nothing. -/
theorem note_bind {f : Unit → Writing β} {b : β} {ws : List Value} (n : Notice)
    (hk : r.Numbered d k) (hf : ∀ d', r.Numbered d' k → Yields r d' (f ()) b ws) :
    Yields r d (modify (·.note n) >>= f) b ws := by
  have hd : Yields r d (modify (·.note n) : Writing Unit) () [] := ⟨rfl, by
    rw [Rendering.recorded_nil, List.append_nil]
    rfl⟩
  exact Yields.bind hk hd fun d' hd' => hf d' hd'

/-- A text is the result if it has the characters of the result. -/
theorem done {s : String} {t : List Char} (h : s.toList = t) :
    Yields r d (Pure.pure s) (String.ofList t) [] := by
  rw [← h, String.ofList_toList]
  exact Yields.pure s

/-- The values, spelled differently. -/
theorem cast {w : Writing α} {a : α} {vs ws : List Value} (h : Yields r d w a vs)
    (hv : vs = ws) : Yields r d w a ws :=
  hv ▸ h

/-- A value gives its slot and binds itself. -/
theorem bindValue (hk : r.Numbered d k) (v : Value) :
    Yields r d (r.bind v) (String.ofList (r.slot k v)) [v] := by
  rcases r with ⟨dialect, mode⟩
  cases mode with
  | bound =>
      -- the placeholder is numbered by the values that are bound already
      have hlen : d.bound.length = k := hk rfl
      subst hlen
      refine ⟨?_, rfl⟩
      show dialect.placeholder _ = String.ofList (dialect.placeholder _).toList
      rw [String.ofList_toList]
  | inline =>
      constructor
      · show dialect.literal v = String.ofList (dialect.literal v).toList
        rw [String.ofList_toList]
      · show d.bound = d.bound ++ []
        rw [List.append_nil]

/-- A fragment gives its template, rendered, and binds the values that have a marker. -/
theorem fill (hk : r.Numbered d k) (ss : List Segment) (vs : List Value) :
    Yields r d (r.fill ss vs) (Template.render r k (Template.ofSegments ss vs))
      (vs.take (Fragment.markers ss)) := by
  rw [← values_ofSegments]
  fun_induction Template.ofSegments ss vs generalizing d k with
  | case1 vs => exact Yields.pure _
  | case2 ss v vs ih =>
      have htext : Template.render r k (.value v :: Template.ofSegments ss vs) =
          (String.ofList (r.slot k v)).toList ++
            Template.render r (k + [v].length) (Template.ofSegments ss vs) := by
        rw [String.toList_ofList]
        rfl
      rw [htext]
      exact cast (bind hk (bindValue hk v) fun _ h => bind h (ih h) fun _ _ => Yields.pure _)
        (by simp)
  | case3 s ss vs hplain ih =>
      rw [Template.render_append, Template.values_append, Template.values_ofChars,
        Template.render_ofChars, Rendering.fill]
      · exact cast (bind hk (ih hk) fun _ _ => Yields.pure _) (by simp)
      · exact hplain

/-- A raw fragment gives its template, rendered; notes are taken if markers and values
differ in number. -/
theorem splice (hk : r.Numbered d k) (sql : String) (params : List Value) :
    Yields r d (r.splice sql params)
      (String.ofList (Template.render r k ((Leaf.fragment sql params).template r.dialect)))
      (Leaf.fragment sql params).written := by
  have hfill : ∀ d', r.Numbered d' k → Yields r d'
      (do return String.ofList (← r.fill (Fragment.scan sql.toList) params))
      (String.ofList (Template.render r k ((Leaf.fragment sql params).template r.dialect)))
      (Leaf.fragment sql params).written := by
    intro d' hd'
    exact cast (bind hd' (fill hd' _ params) fun _ _ => Yields.pure _) (List.append_nil _)
  rw [Rendering.splice]
  dsimp only
  split
  · exact note_bind _ hk hfill
  · exact hfill d hk

end Yields

/-! ## Following a tree -/

/-- On every draft, `w` gives the text of a tree and binds its values. -/
def Writes (r : Rendering) (w : Writing String) (a : Doc) : Prop :=
  ∀ d k, r.Numbered d k → Yields r d w (String.ofList (a.text r k)) a.values

/-- On every draft, `w` gives the texts of trees and binds their values. -/
def WritesAll (r : Rendering) (w : Writing (List String)) (as : List Doc) : Prop :=
  ∀ d k, r.Numbered d k →
    Yields r d w ((Doc.texts r k as).map String.ofList) (as.flatMap Doc.values)

theorem WritesAll.nil (r : Rendering) : WritesAll r (return []) [] :=
  fun _ _ _ => Yields.pure []

theorem WritesAll.cons {r : Rendering} {w : Writing String} {ws : Writing (List String)}
    {a : Doc} {as : List Doc} (hw : Writes r w a) (hws : WritesAll r ws as) :
    WritesAll r (do let t ← w; return t :: (← ws)) (a :: as) :=
  fun _ _ hk => Yields.cast
    (Yields.bind hk (hw _ _ hk) fun _ h => Yields.bind h (hws _ _ h) fun _ _ => Yields.pure _)
    (by simp)

/-- A text without values follows every tree with that text and without values. -/
theorem Writes.pure {r : Rendering} {s : String} {a : Doc} (ht : ∀ k, s.toList = a.text r k)
    (hv : a.values = []) : Writes r (return s) a :=
  fun _ k _ => Yields.cast (Yields.done (ht k)) hv.symm

/-- Texts that are joined by a word follow trees that are joined by it. -/
theorem WritesAll.sep {r : Rendering} {w : Writing (List String)} {as : List Doc} (s : String)
    (h : s.toList.all isOwnChar = true) (hw : WritesAll r w as) :
    Writes r (do return s.intercalate (← w)) (Doc.sep (Doc.word s h) as) :=
  fun _ _ hk => Yields.cast
    (Yields.bind hk (hw _ _ hk) fun _ _ => Yields.done (by
      rw [String.toList_intercalate, Doc.text_sep, List.map_map]
      simp [Function.comp_def]))
    (by simp)

end SelectSql
