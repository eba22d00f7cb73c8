import SelectSql.Proofs.Modes
import SelectSql.Proofs.Sides

/-!
# SelectSql.Proofs.Places

What the passes over markers and tables do, told by the places at which these stand. A text is
cut at the segments of a kind into pieces (`Fragment.gaps`). To put something in their places is
to weave it between the pieces, in the order of the text, and the ends of the pieces are the
places at which the scanner reads the segments (`Fragment.exists_seam_iff`).

Together with the parity of quotes this is the contract of the scanner for those who use it.

Main statement: `Fragment.read_by_parity`.
-/

namespace SelectSql

open Text (IsName)

/-! ## Cutting a row -/

/-- The spelling of a segment. -/
def Segment.spelling (s : Segment) : String :=
  String.ofList s.chars

/-- A marker is picked. -/
def Segment.isMarker : Segment → Bool
  | .marker => true
  | _ => false

/-- A table is picked. -/
def Segment.isTable : Segment → Bool
  | .table _ => true
  | _ => false

namespace Fragment

variable {picked : Segment → Bool} {s : Segment} {ss : List Segment}

/-- The texts before, between and behind the segments that are picked. -/
def gaps (picked : Segment → Bool) : List Segment → List String
  | [] => [""]
  | s :: ss => if picked s then "" :: gaps picked ss else s.chars.foldr consPiece (gaps picked ss)

theorem foldr_consPiece (cs : List Char) (t : String) (ts : List String) :
    cs.foldr consPiece (t :: ts) = (String.ofList cs ++ t) :: ts := by
  induction cs with
  | nil => rw [List.foldr_nil, String.ofList_nil, String.empty_append]
  | cons c cs ih =>
      rw [List.foldr_cons, ih, consPiece, ← String.append_assoc]
      congr 2
      rw [← String.toList_inj]
      simp

theorem gaps_cons_picked (h : picked s = true) (ss : List Segment) :
    gaps picked (s :: ss) = "" :: gaps picked ss := by
  rw [gaps, if_pos h]

/-- A segment that is not picked is written in front of the first gap. -/
theorem exists_gaps_cons (picked : Segment → Bool) (ss : List Segment) :
    ∃ t ts, gaps picked ss = t :: ts ∧
      ∀ s, picked s = false → gaps picked (s :: ss) = (s.spelling ++ t) :: ts := by
  have hcons : ∃ t ts, gaps picked ss = t :: ts := by
    induction ss with
    | nil => exact ⟨"", [], rfl⟩
    | cons s ss ih =>
        rw [gaps]
        split
        · exact ⟨_, _, rfl⟩
        · obtain ⟨t, ts, hgaps⟩ := ih
          rw [hgaps, foldr_consPiece]
          exact ⟨_, _, rfl⟩
  obtain ⟨t, ts, hgaps⟩ := hcons
  refine ⟨t, ts, hgaps, fun s hs => ?_⟩
  rw [gaps, hs, if_neg Bool.false_ne_true, hgaps, foldr_consPiece]
  rfl

theorem length_gaps (picked : Segment → Bool) (ss : List Segment) :
    (gaps picked ss).length = ss.countP picked + 1 := by
  induction ss with
  | nil => rfl
  | cons s ss ih =>
      cases hs : picked s with
      | true => rw [gaps_cons_picked hs, List.length_cons, ih, List.countP_cons_of_pos hs]
      | false =>
          obtain ⟨t, ts, hgaps, hcons⟩ := exists_gaps_cons picked ss
          rw [hcons s hs, List.countP_cons_of_neg (by simp [hs]), ← ih, hgaps]
          rfl

theorem weave_append_cons (u t : String) (ts fs : List String) :
    weave ((u ++ t) :: ts) fs = u ++ weave (t :: ts) fs := by
  cases fs <;> rw [weave, weave, String.append_assoc]

theorem weave_gaps_picked (h : picked s = true) (ss : List Segment) (f : String)
    (fs : List String) :
    weave (gaps picked (s :: ss)) (f :: fs) = f ++ weave (gaps picked ss) fs := by
  rw [gaps_cons_picked h, weave, String.empty_append]

theorem weave_gaps_other (h : picked s = false) (ss : List Segment) (fs : List String) :
    weave (gaps picked (s :: ss)) fs = s.spelling ++ weave (gaps picked ss) fs := by
  obtain ⟨t, ts, hgaps, hcons⟩ := exists_gaps_cons picked ss
  rw [hcons s h, hgaps, weave_append_cons]

/-- With the segments that are picked between them, the gaps make up the text. -/
theorem weave_gaps (picked : Segment → Bool) (ss : List Segment) :
    weave (gaps picked ss) ((ss.filter picked).map Segment.spelling) = String.ofList (text ss) := by
  induction ss with
  | nil => rfl
  | cons s ss ih =>
      rw [text_cons, String.ofList_append, ← ih]
      cases hs : picked s with
      | true =>
          rw [List.filter_cons_of_pos hs, List.map_cons, weave_gaps_picked hs, Segment.spelling]
      | false => rw [List.filter_cons_of_neg (by simp [hs]), weave_gaps_other hs, Segment.spelling]

/-- The text in front of the segment that is picked behind `k` others. -/
def seam (picked : Segment → Bool) (ss : List Segment) (k : Nat) : String :=
  weave ((gaps picked ss).take (k + 1)) (((ss.filter picked).take k).map Segment.spelling)

theorem seam_zero (h : picked s = true) (ss : List Segment) : seam picked (s :: ss) 0 = "" := by
  rw [seam, gaps_cons_picked h]
  rfl

theorem seam_succ (h : picked s = true) (ss : List Segment) (k : Nat) :
    seam picked (s :: ss) (k + 1) = s.spelling ++ seam picked ss k := by
  rw [seam, gaps_cons_picked h, List.filter_cons_of_pos h, List.take_succ_cons, List.take_succ_cons,
    List.map_cons, weave, String.empty_append, seam]

theorem seam_other (h : picked s = false) (ss : List Segment) (k : Nat) :
    seam picked (s :: ss) k = s.spelling ++ seam picked ss k := by
  obtain ⟨t, ts, hgaps, hcons⟩ := exists_gaps_cons picked ss
  rw [seam, seam, hcons s h, hgaps, List.filter_cons_of_neg (by simp [h]), List.take_succ_cons,
    List.take_succ_cons, weave_append_cons]

/-- **The seams of a row are the places of the segments that are picked.** -/
theorem exists_seam_iff (hs : picked s = true) (ss : List Segment) (front : String) :
    (∃ before after, ss = before ++ s :: after ∧ String.ofList (text before) = front) ↔
      ∃ k, (ss.filter picked)[k]? = some s ∧ front = seam picked ss k := by
  induction ss generalizing front with
  | nil => simp
  | cons t ss ih =>
      -- the segment is the first one, or it is found behind the spelling of the first one
      have hcons : (∃ before after, t :: ss = before ++ s :: after ∧
          String.ofList (text before) = front) ↔
          t = s ∧ front = "" ∨
            ∃ k, (ss.filter picked)[k]? = some s ∧ front = t.spelling ++ seam picked ss k := by
        constructor
        · rintro ⟨_ | ⟨u, before⟩, after, heq, rfl⟩
          · exact .inl ⟨(List.cons.inj heq).1, rfl⟩
          · obtain ⟨rfl, hss⟩ := List.cons.inj heq
            obtain ⟨k, hk, hseam⟩ := (ih _).1 ⟨before, after, hss, rfl⟩
            exact .inr ⟨k, hk, by rw [text_cons, String.ofList_append, hseam, Segment.spelling]⟩
        · rintro (⟨rfl, rfl⟩ | ⟨k, hk, rfl⟩)
          · exact ⟨[], ss, rfl, rfl⟩
          · obtain ⟨before, after, rfl, hseam⟩ := (ih _).2 ⟨k, hk, rfl⟩
            exact ⟨t :: before, after, rfl,
              by rw [text_cons, String.ofList_append, hseam, Segment.spelling]⟩
      rw [hcons]
      cases ht : picked t with
      | true =>
          rw [List.filter_cons_of_pos ht]
          refine Iff.trans ?_ Nat.or_exists_add_one
          simp only [seam_zero ht, seam_succ ht, List.getElem?_cons_zero, List.getElem?_cons_succ,
            Option.some_inj]
      | false =>
          have hne : t ≠ s := fun h => by
            rw [h, hs] at ht
            contradiction
          rw [List.filter_cons_of_neg (by simp [ht])]
          simp only [seam_other ht, hne, false_and, false_or]

/-- What is read at a place is picked at a seam. -/
theorem reads_iff_exists_seam (picked : Segment → Bool) (hs : picked s = true)
    (cs front : List Char) :
    Reads cs front s ↔ ∃ k, ((scan cs).filter picked)[k]? = some s ∧
      String.ofList front = seam picked (scan cs) k := by
  rw [← exists_seam_iff hs, Reads]
  simp only [String.ofList_inj]

/-! ## Markers and tables -/

theorem filter_isMarker (ss : List Segment) :
    ss.filter Segment.isMarker = List.replicate (markers ss) .marker := by
  induction ss with
  | nil => rfl
  | cons s ss ih =>
      cases s with
      | marker =>
          rw [List.filter_cons_of_pos rfl, ih, markers_cons, if_pos rfl, Nat.add_comm,
            List.replicate_succ]
      | _ =>
          rw [List.filter_cons_of_neg Bool.false_ne_true, ih, markers_cons,
            if_neg Segment.noConfusion, Nat.zero_add]

theorem filter_isTable (ss : List Segment) :
    ss.filter Segment.isTable = (tables ss).map .table := by
  induction ss with
  | nil => rfl
  | cons s ss ih =>
      cases s with
      | table name => exact congrArg (Segment.table name :: ·) ih
      | _ => exact ih

/-- **Rewriting weaves `f k`, `f (k + 1)`, … into the places of the markers.** -/
theorem ofList_replaceMarkers (f : Nat → String) (k : Nat) (ss : List Segment) :
    String.ofList (replaceMarkers (fun i => (f i).toList) k ss) =
      weave (gaps Segment.isMarker ss) ((List.range' k (markers ss)).map f) := by
  induction ss generalizing k with
  | nil => rfl
  | cons s ss ih =>
      cases s with
      | marker =>
          rw [replaceMarkers, String.ofList_append, String.ofList_toList, ih, markers_cons,
            if_pos rfl, Nat.add_comm 1, List.range'_succ, List.map_cons, weave_gaps_picked rfl]
      | _ =>
          rw [replaceMarkers, String.ofList_append, ih, markers_cons, if_neg Segment.noConfusion,
            Nat.zero_add, weave_gaps_other rfl, Segment.spelling]
          exact Segment.noConfusion

/-- **Expanding weaves the names of the tables into their places**, behind the beginning. -/
theorem ofList_replaceTables (beginning : String) (ss : List Segment) :
    String.ofList (replaceTables (beginning.toList ++ ·) ss) =
      weave (gaps Segment.isTable ss)
        ((tables ss).map fun name => beginning ++ String.ofList name) := by
  induction ss with
  | nil => rfl
  | cons s ss ih =>
      cases s with
      | table name =>
          rw [replaceTables, String.ofList_append, String.ofList_append, String.ofList_toList, ih]
          exact (weave_gaps_picked rfl ss _ _).symm
      | _ =>
          rw [replaceTables, String.ofList_append, ih, weave_gaps_other rfl, Segment.spelling]
          · rfl
          · exact fun _ => Segment.noConfusion

/-- The text in front of a marker, with the markers before it. -/
theorem reads_marker_iff (cs front : List Char) :
    Reads cs front .marker ↔ ∃ k < markers (scan cs), String.ofList front =
      weave ((gaps Segment.isMarker (scan cs)).take (k + 1)) (List.replicate k "?") := by
  rw [reads_iff_exists_seam Segment.isMarker rfl]
  refine exists_congr fun k => ?_
  rw [seam, filter_isMarker, List.getElem?_replicate]
  split
  · next hk =>
    rw [List.take_replicate, Nat.min_eq_left (Nat.le_of_lt hk), List.map_replicate]
    simp [hk, Segment.spelling, Segment.chars]
  · next hk => simp [hk]

/-- The text in front of a table, with the tables before it. -/
theorem reads_table_iff (cs front name : List Char) :
    Reads cs front (.table name) ↔ ∃ k, (tables (scan cs))[k]? = some name ∧ String.ofList front =
      weave ((gaps Segment.isTable (scan cs)).take (k + 1))
        (((tables (scan cs)).take k).map fun name => (Segment.table name).spelling) := by
  rw [reads_iff_exists_seam Segment.isTable rfl]
  refine exists_congr fun k => ?_
  rw [seam, filter_isTable, List.getElem?_map, List.map_take, List.map_take, List.map_map]
  simp [Function.comp_def]

/-! ## The contract of the scanner -/

theorem rewriteMarkers_eq_weave (f : Nat → String) (sql : String) :
    rewriteMarkers f sql = weave (gaps Segment.isMarker (scan sql.toList))
      ((List.range (countMarkers sql)).map f) := by
  rw [rewriteMarkers, ofList_replaceMarkers, countMarkers, List.range_eq_range']

/-- With its own segments between the gaps, a text is as it was. -/
theorem weave_gaps_scan (picked : Segment → Bool) (sql : String) :
    weave (gaps picked (scan sql.toList))
      (((scan sql.toList).filter picked).map Segment.spelling) = sql := by
  rw [weave_gaps, text_scan, String.ofList_toList]

/-- With question marks between the gaps, a text is as it was. -/
theorem weave_gaps_marks (sql : String) :
    weave (gaps Segment.isMarker (scan sql.toList)) (List.replicate (countMarkers sql) "?") =
      sql := by
  have hself := weave_gaps_scan Segment.isMarker sql
  rwa [filter_isMarker, List.map_replicate] at hself

theorem length_gaps_scan (sql : String) :
    (gaps Segment.isMarker (scan sql.toList)).length = countMarkers sql + 1 := by
  rw [length_gaps, List.countP_eq_length_filter, filter_isMarker, List.length_replicate,
    countMarkers]

/-- To write a question mark for every marker changes nothing. -/
theorem rewriteMarkers_mark (sql : String) : rewriteMarkers (fun _ => "?") sql = sql := by
  rw [rewriteMarkers_eq_weave, List.map_const', List.length_range, weave_gaps_marks]

/-- A text is cut at its markers, and rewriting weaves the pieces together again. -/
theorem exists_pieces_of_markers (sql : String) :
    ∃ pieces : List String, pieces.length = countMarkers sql + 1 ∧
      (∀ f, rewriteMarkers f sql = weave pieces ((List.range (countMarkers sql)).map f)) ∧
      ∀ front, Reads sql.toList front .marker ↔ ∃ k < countMarkers sql,
        String.ofList front = weave (pieces.take (k + 1)) (List.replicate k "?") :=
  ⟨gaps Segment.isMarker (scan sql.toList), length_gaps_scan sql,
    fun f => rewriteMarkers_eq_weave f sql, fun _ => reads_marker_iff _ _⟩

/-- A text is cut at its tables, and expanding weaves the pieces together again. -/
theorem exists_pieces_of_tables (sql : String) :
    ∃ (pieces : List String) (names : List (List Char)), pieces.length = names.length + 1 ∧
      sql = weave pieces (names.map fun name => (Segment.table name).spelling) ∧
      (∀ beginning, expandTables beginning sql =
        weave pieces (names.map fun name => beginning ++ String.ofList name)) ∧
      ∀ front name, Reads sql.toList front (.table name) ↔ ∃ k, names[k]? = some name ∧
        String.ofList front = weave (pieces.take (k + 1))
          ((names.take k).map fun name => (Segment.table name).spelling) := by
  refine ⟨gaps Segment.isTable (scan sql.toList), tables (scan sql.toList), ?_, ?_,
    fun beginning => ofList_replaceTables beginning _, fun front name => reads_table_iff _ _ _⟩
  · rw [length_gaps, List.countP_eq_length_filter, filter_isTable, List.length_map]
  · have hself := weave_gaps_scan Segment.isTable sql
    rw [filter_isTable, List.map_map] at hself
    exact hself.symm

/-- **The scanner loses nothing and tells the sides of literals by the parity of quotes**, and
the passes over markers and tables follow it. Of a text that is not balanced the first quote of
the last odd run of quotes does not count. A `?` is read as a marker, and a name in braces as a
table, exactly if it stands outside. Counting counts these markers, rewriting puts `f 0`, `f 1`, …
in their places in the order of the text, expanding puts the names of these tables in theirs, and
all the text between stays. -/
theorem read_by_parity (sql : String) :
    (scan sql.toList).flatMap Segment.chars = sql.toList ∧
    rewriteMarkers (fun _ => "?") sql = sql ∧
    (¬Text.Balanced sql.toList → ∃! lone, Text.LastOddRun sql.toList lone) ∧
    (∀ front, Reads sql.toList front .marker ↔
      front ++ ['?'] <+: sql.toList ∧ Text.Outside sql.toList front) ∧
    (∀ front name, Reads sql.toList front (.table name) ↔
      IsName name ∧ front ++ (Segment.table name).chars <+: sql.toList ∧
        Text.Outside sql.toList front) ∧
    (∃ pieces : List String, pieces.length = countMarkers sql + 1 ∧
      (∀ f, rewriteMarkers f sql = weave pieces ((List.range (countMarkers sql)).map f)) ∧
      ∀ front, Reads sql.toList front .marker ↔ ∃ k < countMarkers sql,
        String.ofList front = weave (pieces.take (k + 1)) (List.replicate k "?")) ∧
    ∃ (pieces : List String) (names : List (List Char)), pieces.length = names.length + 1 ∧
      sql = weave pieces (names.map fun name => (Segment.table name).spelling) ∧
      (∀ beginning, expandTables beginning sql =
        weave pieces (names.map fun name => beginning ++ String.ofList name)) ∧
      ∀ front name, Reads sql.toList front (.table name) ↔ ∃ k, names[k]? = some name ∧
        String.ofList front = weave (pieces.take (k + 1))
          ((names.take k).map fun name => (Segment.table name).spelling) := by
  have hlone (hopen : ¬Text.Balanced sql.toList) :
      ∃! lone, Text.LastOddRun sql.toList lone := by
    obtain ⟨before, post, hquote⟩ := exists_loneQuote hopen
    exact ⟨_, hquote.lastOddRun, fun lone h => h.unique hquote.lastOddRun⟩
  have htable (front name : List Char) : Reads sql.toList front (.table name) ↔
      IsName name ∧ front ++ (Segment.table name).chars <+: sql.toList ∧
        Text.Outside sql.toList front := by
    have hread (hname : IsName name) := reads_iff (s := .table name) hname sql.toList front
    exact ⟨fun h => ⟨h.isName, (hread h.isName).1 h⟩, fun h => (hread h.1).2 h.2⟩
  exact ⟨flatMap_chars_scan _, rewriteMarkers_mark sql, hlone,
    fun front => reads_iff (s := .marker) trivial _ _, htable, exists_pieces_of_markers sql,
    exists_pieces_of_tables sql⟩

/-- A text with a literal and a quote that is never closed. -/
def unclosedSample : String :=
  "a = '?' AND b = 'oops ?"

/-- The quote that is never closed opens no literal, so a marker is read behind it. -/
theorem read_by_parity_unclosedSample :
    ¬Text.Balanced unclosedSample.toList ∧
    Text.LastOddRun unclosedSample.toList "a = '?' AND b = ".toList ∧
    Reads unclosedSample.toList "a = '?' AND b = 'oops ".toList .marker := by
  have hopen : ¬Text.Balanced unclosedSample.toList := by decide
  have hlast : "a = '?' AND b = ".toList.getLast? ≠ some '\'' := by decide
  have hbody : Text.Quoted.body? "oops ?".toList = none := by decide
  have hlone : Text.LastOddRun unclosedSample.toList "a = '?' AND b = ".toList :=
    Text.lastOddRun_of_lone hlast hbody
  obtain ⟨-, -, -, hmarker, -⟩ := read_by_parity unclosedSample
  exact ⟨hopen, hlone, (hmarker _).2 ⟨by decide, (Text.outside_iff hopen hlone).2 (by decide)⟩⟩

end Fragment

end SelectSql
