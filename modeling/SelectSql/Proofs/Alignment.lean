import SelectSql.Grid
import Mathlib.Algebra.GroupWithZero.Nat
import Mathlib.Data.List.Forall2

/-!
# SelectSql.Proofs.Alignment

The grid of rows: its columns are complete, and its lines are aligned.

Design points:

* **A line is its texts with a separator between them** (`Grid.exists_intercalate`). What stands
  in front of a text is measured by the lengths of the texts before it, and these are the widths
  of their columns (`Grid.map_length_padded`).
* **A width is the length of a text**, and no text of its column is longer (`Grid.IsWidth`). So
  padding always fills up, and a line is as long as all widths and separators.
* **What a row shows in a column** is told by its entries (`Row.Shows`), of which the last one
  with the key of the column counts.

Main statement: `Grid.aligned`.
-/

namespace SelectSql

/-! ## Rows -/

namespace Row

/-- The last entry of a row for a column. -/
def Holds (row : Row) (column : String) (t : Tree) : Prop :=
  ∃ before after, row = before ++ (column, t) :: after ∧ ∀ t', (column, t') ∉ after

/-- The text that a row shows in a column. -/
inductive Shows (row : Row) (column : String) : String → Prop
  | missing (h : ∀ t, (column, t) ∉ row) : Shows row column ""
  | null (h : Holds row column .null) : Shows row column "NULL"
  | text {s} (h : Holds row column (.text s)) : Shows row column s
  | json {t} (h : Holds row column t) (hnull : t ≠ .null) (htext : ∀ s, t ≠ .text s) :
      Shows row column t.sorted.json

theorem lookup_reverse_eq_some_iff {row : Row} {column : String} {t : Tree} :
    row.reverse.lookup column = some t ↔ Holds row column t := by
  have hlast (l : List (String × Tree)) :
      (∀ p ∈ l, (column != p.1) = true) ↔ ∀ t', (column, t') ∉ l := by
    simp only [bne_iff_ne, Prod.forall]
    exact ⟨fun h t' ht => h column t' ht rfl, fun h key t' ht heq => h t' (heq ▸ ht)⟩
  rw [List.lookup_eq_some_iff]
  constructor
  · rintro ⟨after, before, hrow, hafter⟩
    refine ⟨before.reverse, after.reverse, ?_, ?_⟩
    · rw [← List.reverse_reverse row, hrow]
      simp
    · simpa using (hlast after).1 hafter
  · rintro ⟨before, after, rfl, hafter⟩
    refine ⟨after.reverse, before.reverse, by simp, (hlast _).2 ?_⟩
    simpa using hafter

theorem lookup_reverse_eq_none_iff {row : Row} {column : String} :
    row.reverse.lookup column = none ↔ ∀ t, (column, t) ∉ row := by
  rw [List.lookup_eq_none_iff]
  simp only [List.mem_reverse, bne_iff_ne, Prod.forall]
  exact ⟨fun h t ht => h column t ht rfl, fun h key t ht heq => h t (heq ▸ ht)⟩

end Row

namespace Grid

theorem cellText_json {t : Tree} (hnull : t ≠ .null) (htext : ∀ s, t ≠ .text s) :
    cellText t = t.sorted.json := by
  cases t with
  | null => exact absurd rfl hnull
  | text s => exact absurd rfl (htext s)
  | _ => rfl

/-- **A cell holds what its row shows in its column**, and nothing else. -/
theorem shows_iff {row : Row} {column text : String} :
    Row.Shows row column text ↔ text = cell row column := by
  constructor
  · intro h
    rw [cell]
    cases h with
    | missing h => rw [Row.lookup_reverse_eq_none_iff.2 h]
    | null h =>
        rw [Row.lookup_reverse_eq_some_iff.2 h]
        rfl
    | text h =>
        rw [Row.lookup_reverse_eq_some_iff.2 h]
        rfl
    | json h hnull htext =>
        rw [Row.lookup_reverse_eq_some_iff.2 h]
        exact (cellText_json hnull htext).symm
  · rintro rfl
    rw [cell]
    cases hlookup : row.reverse.lookup column with
    | none => exact .missing (Row.lookup_reverse_eq_none_iff.1 hlookup)
    | some t =>
        have hholds := Row.lookup_reverse_eq_some_iff.1 hlookup
        cases t with
        | null => exact .null hholds
        | text s => exact .text hholds
        | _ => exact .json hholds Tree.noConfusion fun _ => Tree.noConfusion

/-! ## Columns -/

theorem mem_insertKey {key k : String} {ks : List String} :
    k ∈ insertKey key ks ↔ k = key ∨ k ∈ ks := by
  induction ks with
  | nil => rw [insertKey, List.mem_singleton, or_iff_left List.not_mem_nil]
  | cons k' ks ih =>
      rw [insertKey]
      split
      · exact List.mem_cons
      · split
        · next heq =>
          subst heq
          simp
        · rw [List.mem_cons, ih, List.mem_cons, or_left_comm]

/-- Adding a key keeps the keys ascending. -/
theorem pairwise_insertKey {ks : List String} (h : ks.Pairwise (· < ·)) (key : String) :
    (insertKey key ks).Pairwise (· < ·) := by
  induction ks with
  | nil => exact List.pairwise_singleton _ _
  | cons k ks ih =>
      obtain ⟨hk, hks⟩ := List.pairwise_cons.1 h
      rw [insertKey]
      split
      · next hlt =>
        refine List.pairwise_cons.2 ⟨?_, h⟩
        rw [List.forall_mem_cons]
        exact ⟨hlt, fun l hl => String.lt_trans hlt (hk l hl)⟩
      · next hnot =>
        split
        · exact h
        · next hne =>
          refine List.pairwise_cons.2 ⟨fun l hl => ?_, ih hks⟩
          rcases mem_insertKey.1 hl with rfl | hl
          · exact Std.lt_of_le_of_ne hnot (Ne.symm hne)
          · exact hk l hl

theorem mem_foldl_insertKey {k : String} (all ks : List String) :
    k ∈ all.foldl (fun ks key => insertKey key ks) ks ↔ k ∈ all ∨ k ∈ ks := by
  induction all generalizing ks with
  | nil => rw [List.foldl_nil, or_iff_right List.not_mem_nil]
  | cons key all ih =>
      rw [List.foldl_cons, ih, mem_insertKey, List.mem_cons, or_assoc, or_left_comm]

theorem pairwise_foldl_insertKey (all : List String) {ks : List String}
    (h : ks.Pairwise (· < ·)) :
    (all.foldl (fun ks key => insertKey key ks) ks).Pairwise (· < ·) := by
  induction all generalizing ks with
  | nil => exact h
  | cons key all ih => exact ih (pairwise_insertKey h key)

/-- The columns are the keys of all rows. -/
theorem mem_keys {rows : List Row} {key : String} :
    key ∈ keys rows ↔ ∃ row ∈ rows, ∃ t, (key, t) ∈ row := by
  rw [keys, mem_foldl_insertKey, or_iff_left List.not_mem_nil]
  simp

theorem pairwise_keys (rows : List Row) : (keys rows).Pairwise (· < ·) :=
  pairwise_foldl_insertKey _ .nil

/-! ## Widths -/

/-- The width of a column: the length of its longest text, that of its name included. -/
structure IsWidth (rows : List Row) (column : String) (width : Nat) : Prop where
  name_le : column.length ≤ width
  text_le : ∀ row ∈ rows, ∀ text, Row.Shows row column text → text.length ≤ width
  reached : width = column.length ∨
    ∃ row ∈ rows, ∃ text, Row.Shows row column text ∧ width = text.length

/-- The width that a column is given. -/
def width (rows : List Row) (column : String) : Nat :=
  (rows.map fun row => (cell row column).length).foldl max column.length

theorem isWidth_width (rows : List Row) (column : String) :
    IsWidth rows column (width rows column) := by
  have hmax : (column.length :: rows.map fun row => (cell row column).length).max? =
      some (width rows column) := List.max?_cons'
  obtain ⟨hmem, hle⟩ := List.max?_eq_some_iff.1 hmax
  obtain ⟨hname, hcells⟩ := List.forall_mem_cons.1 hle
  refine ⟨hname, fun row hrow text htext => ?_, ?_⟩
  · rw [shows_iff.1 htext]
    exact hcells _ (List.mem_map_of_mem hrow)
  · rcases List.mem_cons.1 hmem with hwidth | hwidth
    · exact .inl hwidth
    · obtain ⟨row, hrow, heq⟩ := List.mem_map.1 hwidth
      exact .inr ⟨row, hrow, _, shows_iff.2 rfl, heq.symm⟩

/-! ## Lines -/

/-- A text in a line behind `start` characters, filled up with spaces to a width. -/
structure HoldsAt (line : String) (start width : Nat) (text : String) : Prop where
  fits : text.length ≤ width
  stands : ∃ before after : String, before.length = start ∧
    line = before ++ (text ++ String.ofList (List.replicate (width - text.length) ' ')) ++ after

theorem pushn_eq (c : Char) (n : Nat) : "".pushn c n = String.ofList (List.replicate n c) := by
  induction n with
  | zero => rfl
  | succ n ih =>
      rw [String.pushn_eq_repeat_push, Nat.repeat, ← String.pushn_eq_repeat_push, ih,
        List.replicate_succ', ← String.toList_inj]
      simp

theorem padTo_eq (width : Nat) (text : String) :
    padTo width text = text ++ String.ofList (List.replicate (width - text.length) ' ') := by
  rw [padTo, pushn_eq]

theorem length_padTo {width : Nat} {text : String} (h : text.length ≤ width) :
    (padTo width text).length = width := by
  rw [padTo, String.length_append, String.length_pushn, String.length_empty, Nat.zero_add,
    Nat.add_sub_cancel' h]

/-- Texts with a separator between them are as long as all of them together. -/
theorem length_intercalate (separator : String) (texts : List String) :
    (separator.intercalate texts).length =
      (texts.map String.length).sum + separator.length * (texts.length - 1) := by
  induction texts with
  | nil => simp
  | cons t texts ih =>
      cases texts with
      | nil => simp
      | cons u texts =>
          rw [String.intercalate_cons_cons, String.length_append, String.length_append, ih]
          simp only [List.map_cons, List.sum_cons, List.length_cons, Nat.add_sub_cancel,
            Nat.mul_add]
          omega

/-- What stands in front of a text is as long as the texts before it, each with a separator. -/
theorem exists_intercalate (separator : String) {texts : List String} {j : Nat} {t : String}
    (h : texts[j]? = some t) :
    ∃ before after : String, separator.intercalate texts = before ++ t ++ after ∧
      before.length = ((texts.map String.length).take j).sum + separator.length * j := by
  induction texts generalizing j with
  | nil => simp at h
  | cons u texts ih =>
      cases j with
      | zero =>
          obtain rfl : u = t := by simpa using h
          cases texts with
          | nil => exact ⟨"", "", by simp, rfl⟩
          | cons v texts =>
              exact ⟨"", separator ++ separator.intercalate (v :: texts),
                by simp [String.append_assoc], rfl⟩
      | succ j =>
          rw [List.getElem?_cons_succ] at h
          obtain ⟨before, after, heq, hlength⟩ := ih h
          have hne : texts ≠ [] := by
            rintro rfl
            simp at h
          refine ⟨u ++ separator ++ before, after, ?_, ?_⟩
          · rw [String.intercalate_cons_of_ne_nil hne, heq]
            simp only [String.append_assoc]
          · rw [String.length_append, String.length_append, hlength]
            simp only [List.map_cons, List.take_succ_cons, List.sum_cons, Nat.mul_add]
            omega

/-- Texts of the columns, none longer than its column is wide. -/
def Fits (widths : List Nat) (texts : List String) : Prop :=
  List.Forall₂ (fun width text => text.length ≤ width) widths texts

/-- One text for each column fits when each fits in its column. -/
theorem fits_map {columns : List String} {width : String → Nat} {text : String → String}
    (h : ∀ column ∈ columns, (text column).length ≤ width column) :
    Fits (columns.map width) (columns.map text) :=
  List.forall₂_map_left_iff.2 (List.forall₂_map_right_iff.2 (List.forall₂_same.2 h))

theorem Fits.length_le {widths : List Nat} {texts : List String} (h : Fits widths texts)
    {j w : Nat} {text : String} (hw : widths[j]? = some w) (htext : texts[j]? = some text) :
    text.length ≤ w := by
  obtain ⟨hj, rfl⟩ := List.getElem?_eq_some_iff.1 hw
  obtain ⟨hj', rfl⟩ := List.getElem?_eq_some_iff.1 htext
  exact (List.forall₂_iff_get.1 h).2 j hj hj'

/-- Padded texts are as long as their columns are wide. -/
theorem map_length_padded {widths : List Nat} {texts : List String} (h : Fits widths texts) :
    (List.zipWith padTo widths texts).map String.length = widths := by
  induction h with
  | nil => rfl
  | cons hle _ ih => rw [List.zipWith_cons_cons, List.map_cons, length_padTo hle, ih]

/-- Where a column begins: behind the columns before it, each with a separator. -/
def start (g : Grid) (j : Nat) : Nat :=
  (g.widths.take j).sum + 3 * j

theorem length_line {g : Grid} {texts : List String} (h : Fits g.widths texts) :
    (g.line texts).length = g.widths.sum + 3 * (g.widths.length - 1) := by
  have hlength : (List.zipWith padTo g.widths texts).length = g.widths.length := by
    rw [← List.length_map String.length, map_length_padded h]
  rw [line, length_intercalate, map_length_padded h, hlength]
  rfl

theorem length_rule (g : Grid) :
    g.rule.length = g.widths.sum + 3 * (g.widths.length - 1) := by
  have hlengths : (g.widths.map fun w => "".pushn '─' w).map String.length = g.widths := by
    simp [List.map_map, Function.comp_def]
  rw [rule, length_intercalate, hlengths, List.length_map]
  rfl

/-- A text stands where its column begins. -/
theorem holdsAt_line {g : Grid} {texts : List String} (h : Fits g.widths texts) {j w : Nat}
    {text : String} (hw : g.widths[j]? = some w) (htext : texts[j]? = some text) :
    HoldsAt (g.line texts) (g.start j) w text := by
  have hpadded : (List.zipWith padTo g.widths texts)[j]? = some (padTo w text) := by
    rw [List.getElem?_zipWith, hw, htext]
  obtain ⟨before, after, heq, hlength⟩ := exists_intercalate " │ " hpadded
  rw [map_length_padded h] at hlength
  exact ⟨h.length_le hw htext, before, after, hlength, by rw [line, heq, padTo_eq]⟩

/-! ## The grid of rows -/

theorem widths_ofRows (rows : List Row) :
    (ofRows rows).widths = (keys rows).map (width rows) :=
  rfl

theorem lines_ofRows (rows : List Row) :
    (ofRows rows).lines = rows.map fun row => (ofRows rows).line ((keys rows).map (cell row)) := by
  rw [lines, ofRows, List.map_map]
  rfl

theorem fits_columns (rows : List Row) : Fits (ofRows rows).widths (keys rows) := by
  have h : Fits (ofRows rows).widths ((keys rows).map fun column => column) :=
    fits_map fun column _ => (isWidth_width rows column).name_le
  rwa [List.map_id'] at h

theorem fits_cells {rows : List Row} {row : Row} (h : row ∈ rows) :
    Fits (ofRows rows).widths ((keys rows).map (cell row)) :=
  fits_map fun column _ => (isWidth_width rows column).text_le row h _ (shows_iff.2 rfl)

/-- **The grid of rows is complete and aligned.** Its columns are the keys of all rows, ascending.
Header, rule and lines are equally long, and there is a line for each row. In each line, every
column begins where its name begins in the header, and holds what the row shows there, filled up
with spaces to the width of the column, which is the length of its longest text. -/
theorem aligned (rows : List Row) :
    let g := ofRows rows
    g.columns.Pairwise (· < ·) ∧
    (∀ key, key ∈ g.columns ↔ ∃ row ∈ rows, ∃ t, (key, t) ∈ row) ∧
    g.rule.length = g.header.length ∧
    (∀ line ∈ g.lines, line.length = g.header.length) ∧
    g.lines.length = rows.length ∧
    ∀ (j : Nat) (column : String), g.columns[j]? = some column →
      ∃ w, IsWidth rows column w ∧
        HoldsAt g.header (g.start j) w column ∧
        ∀ (i : Nat) (row : Row), rows[i]? = some row →
          ∃ line text, g.lines[i]? = some line ∧ Row.Shows row column text ∧
            HoldsAt line (g.start j) w text := by
  intro g
  have hheader : g.header.length = g.widths.sum + 3 * (g.widths.length - 1) :=
    length_line (fits_columns rows)
  refine ⟨pairwise_keys rows, fun _ => mem_keys, ?_, ?_, ?_, ?_⟩
  · rw [hheader, length_rule]
  · intro line hline
    rw [lines_ofRows] at hline
    obtain ⟨row, hrow, rfl⟩ := List.mem_map.1 hline
    rw [hheader]
    exact length_line (fits_cells hrow)
  · rw [lines_ofRows, List.length_map]
  · intro j column (hcolumn : (keys rows)[j]? = some column)
    have hwidth : g.widths[j]? = some (width rows column) := by
      rw [widths_ofRows, List.getElem?_map, hcolumn]
      rfl
    refine ⟨_, isWidth_width rows column, holdsAt_line (fits_columns rows) hwidth hcolumn, ?_⟩
    intro i row hrow
    have hcell : ((keys rows).map (cell row))[j]? = some (cell row column) := by
      rw [List.getElem?_map, hcolumn]
      rfl
    refine ⟨g.line ((keys rows).map (cell row)), cell row column, ?_, shows_iff.2 rfl, ?_⟩
    · rw [lines_ofRows, List.getElem?_map, hrow]
      rfl
    · exact holdsAt_line (fits_cells (List.mem_of_getElem? hrow)) hwidth hcell

/-- A row whose second column is missing, and one with a text of several bytes a character. -/
def unevenSample : List Row :=
  [[("a", .null)], [("größe", .text "é"), ("a", .text "x")]]

theorem aligned_unevenSample :
    (ofRows unevenSample).columns[1]? = some "größe" ∧
    ∃ w, IsWidth unevenSample "größe" w ∧
      HoldsAt (ofRows unevenSample).header ((ofRows unevenSample).start 1) w "größe" ∧
      ∀ (i : Nat) (row : Row), unevenSample[i]? = some row →
        ∃ line text, (ofRows unevenSample).lines[i]? = some line ∧ Row.Shows row "größe" text ∧
          HoldsAt line ((ofRows unevenSample).start 1) w text := by
  have hcolumn : (ofRows unevenSample).columns[1]? = some "größe" := by decide +kernel
  obtain ⟨_, _, _, _, _, hcolumns⟩ := aligned unevenSample
  exact ⟨hcolumn, hcolumns 1 "größe" hcolumn⟩

example : (ofRows unevenSample).lines = ["NULL │      ", "x    │ é    "] := by
  decide +kernel

end Grid

end SelectSql
