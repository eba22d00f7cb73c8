import SelectSql.Proofs.Places
import SelectSql.Proofs.Writing

/-!
# SelectSql.Proofs.Splicing

What becomes of a raw fragment with values for its markers, whether the two are of one number or
not.

Design points:

* **The fragment is cut at its markers** (`Fragment.gaps`), and what is written for them is woven
  between the pieces (`Rendering.run_fill`). All that is not a marker is in the pieces.
* **Three positions go together**: the marker number `i` of the fragment takes the value number
  `i`, and its placeholder counts the values that the draft held before and those in front of it
  (`Rendering.markerText`). Behind the last value the markers stay as they are.

Main statement: `Rendering.run_splice`.
-/

namespace SelectSql

open Fragment (gaps markers scan)

namespace Rendering

variable {r : Rendering} {d : Draft} {k : Nat}

/-- What is written for the marker with `i` others in front of it, behind `k` values. -/
def markerText (r : Rendering) (k : Nat) (params : List Value) (i : Nat) : String :=
  match params[i]? with
  | some v => String.ofList (r.slot (k + i) v)
  | none => "?"

theorem markerText_succ (r : Rendering) (k : Nat) (v : Value) (params : List Value) (i : Nat) :
    r.markerText k (v :: params) (i + 1) = r.markerText (k + 1) params i := by
  rw [markerText, markerText, List.getElem?_cons_succ, Nat.add_comm i, Nat.add_assoc]

/-- The texts for the markers behind the first value are those for the first markers behind one
value more. -/
theorem map_markerText_cons (r : Rendering) (k : Nat) (v : Value) (params : List Value) (m : Nat) :
    (List.range (m + 1)).map (r.markerText k (v :: params)) =
      String.ofList (r.slot k v) :: (List.range m).map (r.markerText (k + 1) params) := by
  rw [List.range_succ_eq_map, List.map_cons, List.map_map]
  exact congrArg (_ :: ·) (List.map_congr_left fun i _ => r.markerText_succ k v params i)

/-- Without values the markers stay as they are. -/
theorem map_markerText_nil (r : Rendering) (k m : Nat) :
    (List.range m).map (r.markerText k []) = List.replicate m "?" := by
  have hmark : r.markerText k [] = fun _ => "?" := funext fun i => by simp [markerText]
  rw [hmark, List.map_const', List.length_range]

/-- A value leaves its slot in the text, and itself in the draft. -/
theorem run_bind (hk : r.Numbered d k) (v : Value) :
    (r.bind v).run d =
      (String.ofList (r.slot k v), { d with bound := d.bound ++ r.recorded [v] }) := by
  have hyields := Yields.bindValue hk v
  have hnotices : ((r.bind v).run d).2.notices = d.notices := by
    rcases r with ⟨dialect, mode⟩
    cases mode <;> rfl
  refine Prod.ext hyields.value ?_
  rw [← hyields.bound, ← hnotices]

/-- **Filling weaves the slots of the values into the places of the markers**, as far as the
values go, and records as many of them as there are markers. -/
theorem run_fill (hk : r.Numbered d k) (ss : List Segment) (params : List Value) :
    (r.fill ss params).run d =
      ((weave (gaps Segment.isMarker ss)
          ((List.range (markers ss)).map (r.markerText k params))).toList,
        { d with bound := d.bound ++ r.recorded (params.take (markers ss)) }) := by
  induction ss generalizing d k params with
  | nil =>
      have hnone : params.take (markers []) = [] := List.take_zero
      rw [Rendering.fill, hnone, recorded_nil, List.append_nil, Writing.run_pure]
      rfl
  | cons s ss ih =>
      cases hs : s.isMarker with
      | false =>
          have hne : s ≠ .marker := by
            rintro rfl
            contradiction
          rw [Rendering.fill, Writing.run_bind, ih hk, Writing.run_pure, Fragment.markers_cons,
            if_neg hne, Nat.zero_add, Fragment.weave_gaps_other hs, String.toList_append,
            Segment.spelling, String.toList_ofList]
          exact fun _ _ _ heq => hne heq
      | true =>
          obtain rfl : s = .marker := by
            cases s with
            | marker => rfl
            | _ => contradiction
          rw [Fragment.markers_cons, if_pos rfl, Nat.add_comm 1]
          cases params with
          | nil =>
              rw [Rendering.fill, Writing.run_bind, ih hk, Writing.run_pure, map_markerText_nil,
                map_markerText_nil, List.replicate_succ, Fragment.weave_gaps_picked rfl]
              · simp [Segment.chars]
              · simp
          | cons v params =>
              have hbind := run_bind hk v
              rw [Rendering.fill, Writing.run_bind, Writing.run_bind, hbind, ih (hk.next v),
                map_markerText_cons, Fragment.weave_gaps_picked rfl, List.take_succ_cons,
                recorded_cons v (params.take _), Writing.run_pure, String.toList_append,
                List.append_assoc]

/-- In bound mode a marker becomes the placeholder of its value. -/
theorem map_markerText_bound (dialect : Dialect) (k : Nat) (params : List Value) (m : Nat) :
    (List.range m).map (markerText ⟨dialect, .bound⟩ k params) =
      (List.range m).map fun i =>
        if i < params.length then dialect.placeholder (k + i + 1) else "?" := by
  refine List.map_congr_left fun i _ => ?_
  rw [markerText]
  by_cases hi : i < params.length
  · rw [List.getElem?_eq_getElem hi, if_pos hi]
    exact String.ofList_toList
  · rw [List.getElem?_eq_none (Nat.le_of_not_lt hi), if_neg hi]

/-- In inline mode a marker becomes the literal of its value. -/
theorem map_markerText_inline (dialect : Dialect) (k : Nat) (params : List Value) (m : Nat) :
    (List.range m).map (markerText ⟨dialect, .inline⟩ k params) =
      (List.range m).map fun i => (params[i]?.map dialect.literal).getD "?" := by
  refine List.map_congr_left fun i _ => ?_
  rw [markerText]
  cases params[i]? with
  | none => rfl
  | some v => exact String.ofList_toList

/-- The draft in which a fragment is filled: it notes if markers and values differ in number. -/
def noted (sql : String) (params : List Value) (d : Draft) : Draft :=
  if Fragment.countMarkers sql = params.length then d
  else d.note (.markerMismatch sql (Fragment.countMarkers sql) params.length)

theorem numbered_noted (hk : r.Numbered d k) (sql : String) (params : List Value) :
    r.Numbered (noted sql params d) k := by
  rw [noted]
  split <;> exact hk

theorem run_splice_eq_run_fill (r : Rendering) (sql : String) (params : List Value) (d : Draft) :
    (r.splice sql params).run d =
      (String.ofList ((r.fill (scan sql.toList) params).run (noted sql params d)).1,
        ((r.fill (scan sql.toList) params).run (noted sql params d)).2) := by
  rw [splice, noted]
  by_cases hcount : Fragment.countMarkers sql = params.length
  · have hmarkers : markers (scan sql.toList) = params.length := hcount
    rw [if_pos hcount]
    simp only [hmarkers, ne_eq, not_true_eq_false, if_false]
    rfl
  · have hmarkers : markers (scan sql.toList) ≠ params.length := hcount
    rw [if_neg hcount]
    simp only [hmarkers, ne_eq, not_false_eq_true, if_true]
    rfl

/-- **Splicing a fragment puts the values in the places of its markers**, whether markers and
values are of one number or not. The fragment is cut at the places where a question mark stands
outside literals. Between the pieces, which stay as they are, bound mode writes placeholders that
count on from the values of the draft, and inline mode the literals, in either mode as many as
there are values; the other markers stay. Bound mode appends the values that have a marker to
those of the draft, and inline mode none. A difference in number is noted. -/
theorem run_splice (sql : String) (params : List Value) :
    ∃ pieces : List String, pieces.length = Fragment.countMarkers sql + 1 ∧
      sql = weave pieces (List.replicate (Fragment.countMarkers sql) "?") ∧
      (∀ front : List Char, front ++ ['?'] <+: sql.toList ∧ Text.Outside sql.toList front ↔
        ∃ i < Fragment.countMarkers sql,
          String.ofList front = weave (pieces.take (i + 1)) (List.replicate i "?")) ∧
      ∀ (dialect : Dialect) (d : Draft),
        (splice ⟨dialect, .bound⟩ sql params).run d =
          (weave pieces ((List.range (Fragment.countMarkers sql)).map fun i =>
              if i < params.length then dialect.placeholder (d.bound.length + i + 1) else "?"),
            { noted sql params d with
              bound := d.bound ++ params.take (min (Fragment.countMarkers sql) params.length) }) ∧
        (splice ⟨dialect, .inline⟩ sql params).run d =
          (weave pieces ((List.range (Fragment.countMarkers sql)).map fun i =>
              (params[i]?.map dialect.literal).getD "?"),
            { noted sql params d with bound := d.bound }) := by
  have hbound (d : Draft) : (noted sql params d).bound = d.bound := by
    rw [noted]
    split <;> rfl
  have hrun (r : Rendering) (d : Draft) : (r.splice sql params).run d =
      (weave (gaps Segment.isMarker (scan sql.toList))
          ((List.range (Fragment.countMarkers sql)).map
            (r.markerText d.bound.length params)),
        { noted sql params d with
          bound := d.bound ++ r.recorded (params.take (Fragment.countMarkers sql)) }) := by
    have hk : r.Numbered (noted sql params d) d.bound.length :=
      numbered_noted (fun _ => rfl) sql params
    rw [run_splice_eq_run_fill, run_fill hk, String.ofList_toList, hbound, Fragment.countMarkers]
  refine ⟨_, Fragment.length_gaps_scan sql, (Fragment.weave_gaps_marks sql).symm,
    fun front => ?_, fun dialect d => ⟨?_, ?_⟩⟩
  · exact (Fragment.reads_iff (s := .marker) trivial _ _).symm.trans (Fragment.reads_marker_iff _ _)
  · have hrecorded : recorded ⟨dialect, .bound⟩ (params.take (Fragment.countMarkers sql)) =
        params.take (min (Fragment.countMarkers sql) params.length) :=
      List.take_eq_take_iff.2 (by omega)
    rw [hrun, map_markerText_bound, hrecorded]
  · have hrecorded : recorded ⟨dialect, .inline⟩ (params.take (Fragment.countMarkers sql)) = [] :=
      rfl
    rw [hrun, map_markerText_inline, hrecorded, List.append_nil]

/-- The third marker has no value; the question mark in the literal is none. -/
example : ((splice ⟨.postgres, .bound⟩ "f(?) || '?' || ?, ?" [.int 1, .null]).run
    { bound := [.int 7] }).1 = "f($2) || '?' || $3, ?" := by
  cbv

end Rendering

end SelectSql
