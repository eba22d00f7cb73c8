import SelectSql.Proofs.Rows
import Mathlib.Data.List.Chain

/-!
# SelectSql.Proofs.Collapsing

Collapsing of any text, whether its quotes are balanced or not. Collapsing squeezes and trims the
row of segments, and the row that comes out is the one that the scanner reads in the collapsed
text (`scan_collapseChars`): no literal, marker or table is made or lost. So what is to be said
of a collapsed text is said of a squeezed row.

Design points:

* **Squeezing keeps what the conditions on rows look at**: the runs of quotes, and the characters
  of a name behind a brace.
* **Segments are replaced one by one, blanks by themselves** (`replace`, `KeepsBlanks`). What is
  put in the place of a segment that is no blank may be a row of its own, and then squeezing and
  trimming go on around it.
* **A row that is tidy is left as it is** (`squeezeRow_eq_self`), so collapsing twice is
  collapsing once.

Main statement: `collapse_normal`.
-/

namespace SelectSql

open Text (quoteRuns IsName)

namespace Segment

theorem exists_of_isBlank {s : Segment} (h : s.isBlank = true) :
    ∃ c, s = .char c ∧ Text.isBlank c = true := by
  cases s with
  | char c => exact ⟨c, rfl, h⟩
  | _ => exact nomatch h

@[simp] theorem isBlank_space : (Segment.char ' ').isBlank = true := by decide

/-- A table has a name that the scanner reads. -/
def WellNamed : Segment → Prop
  | .table name => IsName name
  | _ => True

theorem Fits.wellNamed {s : Segment} {cs : List Char} (h : s.Fits cs) : s.WellNamed := by
  cases s with
  | table name => exact h
  | _ => trivial

end Segment

namespace Fragment

theorem Settled.wellNamed {ss : List Segment} (h : Settled ss) : ∀ s ∈ ss, s.WellNamed := by
  induction ss with
  | nil => simp
  | cons s ss ih => exact List.forall_mem_cons.2 ⟨h.1.wellNamed, ih h.2⟩

/-! ## Squeezed rows -/

/-- Puts one space in the place of every run of blanks. `afterSpace` tells whether a space stands
right before. -/
def squeezeRow : (afterSpace : Bool) → List Segment → List Segment
  | _, [] => []
  | afterSpace, s :: ss =>
    if s.isBlank then
      if afterSpace then squeezeRow true ss else .char ' ' :: squeezeRow true ss
    else s :: squeezeRow false ss

@[simp] theorem squeezeRow_nil (afterSpace : Bool) : squeezeRow afterSpace [] = [] := rfl

theorem squeezeRow_blank {s : Segment} (h : s.isBlank = true) (afterSpace : Bool)
    (ss : List Segment) : squeezeRow afterSpace (s :: ss) =
      if afterSpace then squeezeRow true ss else .char ' ' :: squeezeRow true ss := by
  rw [squeezeRow, if_pos h]

theorem squeezeRow_of_not_blank {s : Segment} (h : s.isBlank = false) (afterSpace : Bool)
    (ss : List Segment) : squeezeRow afterSpace (s :: ss) = s :: squeezeRow false ss := by
  rw [squeezeRow, h, if_neg Bool.false_ne_true]

/-- Squeezing a row squeezes its text. -/
theorem text_squeezeRow (afterSpace : Bool) (ss : List Segment) :
    text (squeezeRow afterSpace ss) = squeeze afterSpace ss := by
  induction ss generalizing afterSpace with
  | nil => cases afterSpace <;> rfl
  | cons s ss ih =>
      cases s with
      | char c =>
          rw [squeezeRow, squeeze, Segment.isBlank, ← ih, ← ih]
          split
          · split <;> rfl
          · rfl
      | _ =>
          rw [squeezeRow_of_not_blank rfl, text_cons, ih, squeeze]
          exact fun c => Segment.noConfusion

theorem collapseChars_eq_text (cs : List Char) :
    collapseChars cs = text (trimRow (squeezeRow false (scan cs))) := by
  rw [collapseChars, ← text_squeezeRow, trimChars_text]

/-! ## What the scanner reads in a collapsed text -/

/-- A blank is a word between two runs of quotes, and so is a space. -/
theorem quoteRuns_blank {s : Segment} (h : s.isBlank = true) (cs : List Char) :
    quoteRuns (s.chars ++ cs) = (quoteRuns cs).behindWord := by
  obtain ⟨c, rfl, hc⟩ := Segment.exists_of_isBlank h
  exact Text.quoteRuns_cons (Text.ne_quote_of_isBlank hc) cs

/-- Squeezing keeps the runs of quotes. What stands behind a space is seen up to a word in front
of it. -/
theorem quoteRuns_squeezeRow (ss : List Segment) :
    quoteRuns (text (squeezeRow false ss)) = quoteRuns (text ss) ∧
      (quoteRuns (text (squeezeRow true ss))).behindWord = (quoteRuns (text ss)).behindWord := by
  -- both at once: the first blank of a run takes the first claim to the second
  induction ss with
  | nil => exact ⟨rfl, rfl⟩
  | cons s ss ih =>
      obtain ⟨ihfirst, ihbehind⟩ := ih
      cases hs : s.isBlank with
      | true =>
          rw [squeezeRow_blank hs, squeezeRow_blank hs, if_neg Bool.false_ne_true, if_pos rfl,
            text_cons, text_cons, quoteRuns_blank hs, quoteRuns_blank Segment.isBlank_space,
            ihbehind]
          exact ⟨rfl, rfl⟩
      | false =>
          rw [squeezeRow_of_not_blank hs, squeezeRow_of_not_blank hs, text_cons, text_cons,
            Text.quoteRuns_congr ihfirst]
          exact ⟨rfl, rfl⟩

/-- Squeezing keeps what stands behind a brace up to the end of a name. -/
theorem closesName_squeezeRow (begun : Bool) (ss : List Segment) :
    Text.closesName begun (text (squeezeRow false ss)) = Text.closesName begun (text ss) := by
  induction ss generalizing begun with
  | nil => rfl
  | cons s ss ih =>
      cases hs : s.isBlank with
      | true =>
          obtain ⟨c, rfl, hc⟩ := Segment.exists_of_isBlank hs
          rw [squeezeRow_blank hs, if_neg Bool.false_ne_true, text_cons, text_cons]
          exact (Text.closesName_blank (by decide) begun _).trans
            (Text.closesName_blank hc begun _).symm
      | false =>
          rw [squeezeRow_of_not_blank hs, text_cons, text_cons]
          exact Text.closesName_congr ih s.chars begun

/-- What holds along a row holds along the squeezed row, if a space is in order everywhere and
squeezing what stands behind is of no matter. -/
theorem Along.squeezeRow {inOrder : Segment → List Char → Prop}
    (hspace : ∀ cs, inOrder (.char ' ') cs)
    (h : ∀ s ss, inOrder s (text ss) → inOrder s (text (squeezeRow false ss)))
    {ss : List Segment} (hss : Along inOrder ss) (afterSpace : Bool) :
    Along inOrder (squeezeRow afterSpace ss) := by
  induction ss generalizing afterSpace with
  | nil => trivial
  | cons s ss ih =>
      obtain ⟨hs, hss⟩ := hss
      cases hblank : s.isBlank with
      | true =>
          rw [squeezeRow_blank hblank]
          split
          · exact ih hss true
          · exact ⟨hspace _, ih hss true⟩
      | false =>
          rw [squeezeRow_of_not_blank hblank]
          exact ⟨h s ss hs, ih hss false⟩

theorem settled_squeezeRow {ss : List Segment} (h : Settled ss) : Settled (squeezeRow false ss) :=
  Along.squeezeRow (fun _ => ⟨by decide, fun hq => absurd hq (by decide)⟩)
    (fun _ ss hs => hs.congr (quoteRuns_squeezeRow ss).1.symm) h false

theorem named_squeezeRow {ss : List Segment} (h : Named ss) : Named (squeezeRow false ss) := by
  refine Along.squeezeRow (fun _ hopen => absurd hopen (by decide))
    (fun s ss hs hopen => ?_) h false
  rw [closesName_squeezeRow]
  exact hs hopen

/-- **The scanner reads the squeezed row** in a collapsed text. -/
theorem scan_collapseChars (cs : List Char) :
    scan (collapseChars cs) = trimRow (squeezeRow false (scan cs)) := by
  rw [collapseChars_eq_text]
  exact scan_text (settled_trimRow (settled_squeezeRow (settled_scan cs)))
    (named_trimRow (named_squeezeRow (named_scan cs)))

/-! ## Replacing segments -/

/-- Puts a row in the place of every segment. It may depend on how many markers stand before. -/
def replace (f : Nat → Segment → List Segment) : (markersBefore : Nat) → List Segment → List Segment
  | _, [] => []
  | k, s :: ss => f k s ++ replace f (if s = .marker then k + 1 else k) ss

@[simp] theorem replace_nil (f : Nat → Segment → List Segment) (k : Nat) :
    replace f k [] = [] := rfl

/-- Without looking at the markers, every segment is replaced by itself. -/
theorem replace_eq_flatMap (g : Segment → List Segment) (k : Nat) (ss : List Segment) :
    replace (fun _ => g) k ss = ss.flatMap g := by
  induction ss generalizing k with
  | nil => rfl
  | cons s ss ih => rw [replace, ih, List.flatMap_cons]

theorem replace_append (f : Nat → Segment → List Segment) (k : Nat) (ss ts : List Segment) :
    replace f k (ss ++ ts) = replace f k ss ++ replace f (k + markers ss) ts := by
  induction ss generalizing k with
  | nil => rfl
  | cons s ss ih =>
      rw [List.cons_append, replace, replace, ih, markers_cons, List.append_assoc]
      congr 3
      split <;> omega

/-- A row without blanks is squeezed to itself, and what follows it does not follow a space. -/
theorem squeezeRow_append {word : List Segment} (hne : word ≠ [])
    (hword : ∀ s ∈ word, s.isBlank = false) (afterSpace : Bool) (ss : List Segment) :
    squeezeRow afterSpace (word ++ ss) = word ++ squeezeRow false ss := by
  induction word generalizing afterSpace with
  | nil => exact absurd rfl hne
  | cons s word ih =>
      obtain ⟨hs, hword⟩ := List.forall_mem_cons.1 hword
      rw [List.cons_append, squeezeRow_of_not_blank hs]
      by_cases hnil : word = []
      · rw [hnil]
        rfl
      · rw [ih hnil hword]
        rfl

/-- Blanks are kept, and all else is replaced by something without blanks. -/
structure KeepsBlanks (f : Nat → Segment → List Segment) : Prop where
  blank : ∀ k s, s.isBlank = true → f k s = [s]
  solid : ∀ k s, s.WellNamed → s.isBlank = false → f k s ≠ [] ∧ ∀ t ∈ f k s, t.isBlank = false

namespace KeepsBlanks

variable {f : Nat → Segment → List Segment} {ss : List Segment}

/-- Blanks are no markers, so they stay as they are. -/
theorem replace_blank (hf : KeepsBlanks f) (k : Nat) (hss : ∀ s ∈ ss, s.isBlank = true) :
    replace f k ss = ss ∧ markers ss = 0 := by
  induction ss with
  | nil => exact ⟨rfl, rfl⟩
  | cons s ss ih =>
      obtain ⟨hs, hss⟩ := List.forall_mem_cons.1 hss
      have hmarker : s ≠ .marker := by
        rintro rfl
        exact absurd hs (by decide)
      obtain ⟨hreplace, hmarkers⟩ := ih hss
      rw [replace, if_neg hmarker, hf.blank k s hs, hreplace, markers_cons, if_neg hmarker,
        hmarkers]
      exact ⟨rfl, rfl⟩

/-- Squeezing goes on around what is replaced. -/
theorem squeezeRow_replace (hf : KeepsBlanks f) (hss : ∀ s ∈ ss, s.WellNamed) (k : Nat)
    (afterSpace : Bool) :
    squeezeRow afterSpace (replace f k ss) = replace f k (squeezeRow afterSpace ss) := by
  induction ss generalizing k afterSpace with
  | nil => rfl
  | cons s ss ih =>
      obtain ⟨hs, hss⟩ := List.forall_mem_cons.1 hss
      cases hblank : s.isBlank with
      | true =>
          have hspace : f k (.char ' ') = [.char ' '] := hf.blank k _ Segment.isBlank_space
          have hmarker : s ≠ .marker := by
            rintro rfl
            exact absurd hblank (by decide)
          rw [replace, hf.blank k s hblank, if_neg hmarker, List.singleton_append,
            squeezeRow_blank hblank, squeezeRow_blank hblank, ih hss]
          split
          · rfl
          · rw [replace, hspace, if_neg (by decide)]
            rfl
      | false =>
          obtain ⟨hne, hsolid⟩ := hf.solid k s hs hblank
          rw [replace, squeezeRow_append hne hsolid, ih hss, squeezeRow_of_not_blank hblank,
            replace]

/-- What is replaced in a trimmed row leaves it trimmed. -/
theorem trimmed_replace (hf : KeepsBlanks f) (hss : ∀ s ∈ ss, s.WellNamed) (k : Nat)
    (h : Text.Trimmed Segment.isBlank ss) : Text.Trimmed Segment.isBlank (replace f k ss) := by
  constructor
  · cases ss with
    | nil => simp
    | cons s ss =>
        obtain ⟨hne, hsolid⟩ := hf.solid k s (hss s List.mem_cons_self) (h.head s rfl)
        intro t ht
        rw [replace, List.head?_append_of_ne_nil _ hne] at ht
        exact hsolid t (List.mem_of_mem_head? ht)
  · rcases List.eq_nil_or_concat ss with rfl | ⟨ss, s, rfl⟩
    · simp
    · rw [List.concat_eq_append] at h hss ⊢
      obtain ⟨hne, hsolid⟩ := hf.solid (k + markers ss) s (hss s (by simp)) (h.last s (by simp))
      intro t ht
      rw [replace_append, replace, replace_nil, List.append_nil,
        List.getLast?_append_of_ne_nil _ hne] at ht
      exact hsolid t (List.mem_of_getLast? ht)

/-- Trimming goes on around what is replaced. -/
theorem trimRow_replace (hf : KeepsBlanks f) (hss : ∀ s ∈ ss, s.WellNamed) (k : Nat) :
    trimRow (replace f k ss) = replace f k (trimRow ss) := by
  obtain ⟨front, back, heq, hfront, hback, htrim⟩ := Text.exists_trimBy Segment.isBlank ss
  have hmid : ∀ s ∈ trimRow ss, s.WellNamed := fun s hs => by
    refine hss s ?_
    rw [heq]
    exact List.mem_append_left _ (List.mem_append_right _ hs)
  have hsplit : replace f k ss = front ++ replace f k (trimRow ss) ++ back := by
    obtain ⟨hreplace, hmarkers⟩ := hf.replace_blank k hfront
    have hall := congrArg (replace f k) heq
    rwa [replace_append, replace_append, hreplace, hmarkers, (hf.replace_blank _ hback).1] at hall
  rw [hsplit]
  exact Text.trimBy_append hfront hback (hf.trimmed_replace hmid k htrim)

end KeepsBlanks

end Fragment

/-! ## Literals and the characters outside -/

/-- A literal as a whole, or the characters of a segment. -/
def Segment.parts : Segment → List Segment
  | .literal content => [.literal content]
  | s => s.chars.map .char

namespace Fragment

/-- A text as the row of its literals and of the characters outside them. -/
def parts (cs : List Char) : List Segment :=
  (scan cs).flatMap Segment.parts

theorem keepsBlanks_parts : KeepsBlanks fun _ => Segment.parts where
  blank k s hs := by
    obtain ⟨c, rfl, -⟩ := Segment.exists_of_isBlank hs
    rfl
  solid k s hnamed hs := by
    cases s with
    | literal content => exact ⟨List.cons_ne_nil _ _, by simpa [Segment.parts] using hs⟩
    | marker => exact ⟨List.cons_ne_nil _ _, by decide⟩
    | table name =>
        refine ⟨List.cons_ne_nil _ _, fun t ht => ?_⟩
        obtain ⟨c, hc, rfl⟩ := List.mem_map.1 ht
        exact isBlank_of_mem_chars_table hnamed c hc
    | char c => exact ⟨List.cons_ne_nil _ _, by simpa [Segment.parts, Segment.chars] using hs⟩

/-- Collapsing squeezes and trims the parts of a text. -/
theorem parts_collapseChars (cs : List Char) :
    parts (collapseChars cs) = trimRow (squeezeRow false (parts cs)) := by
  have hscan := settled_scan cs
  rw [parts, parts, scan_collapseChars, ← replace_eq_flatMap _ 0, ← replace_eq_flatMap _ 0,
    keepsBlanks_parts.squeezeRow_replace hscan.wellNamed,
    keepsBlanks_parts.trimRow_replace (settled_squeezeRow hscan).wellNamed]

/-! ## What is kept -/

/-- The segments of a row that are not blank, each with whether blank space stands right before
it. `behindBlank` tells so of the first. -/
def spacing : (behindBlank : Bool) → List Segment → List (Segment × Bool)
  | _, [] => []
  | behindBlank, s :: ss =>
    if s.isBlank then spacing true ss else (s, behindBlank) :: spacing false ss

theorem spacing_blank {s : Segment} (h : s.isBlank = true) (behindBlank : Bool)
    (ss : List Segment) : spacing behindBlank (s :: ss) = spacing true ss := by
  rw [spacing, if_pos h]

theorem spacing_of_not_blank {s : Segment} (h : s.isBlank = false) (behindBlank : Bool)
    (ss : List Segment) :
    spacing behindBlank (s :: ss) = (s, behindBlank) :: spacing false ss := by
  rw [spacing, h, if_neg Bool.false_ne_true]

theorem map_fst_spacing (behindBlank : Bool) (ss : List Segment) :
    (spacing behindBlank ss).map Prod.fst = ss.filter fun s => !s.isBlank := by
  induction ss generalizing behindBlank with
  | nil => rfl
  | cons s ss ih =>
      cases hs : s.isBlank with
      | true => rw [spacing_blank hs, ih, List.filter_cons_of_neg (by simp [hs])]
      | false =>
          rw [spacing_of_not_blank hs, List.map_cons, ih, List.filter_cons_of_pos (by simp [hs])]

/-- A space that is not written stands behind another one. -/
theorem spacing_squeezeRow {afterSpace behindBlank : Bool}
    (h : afterSpace = true → behindBlank = true) (ss : List Segment) :
    spacing behindBlank (squeezeRow afterSpace ss) = spacing behindBlank ss := by
  induction ss generalizing afterSpace behindBlank with
  | nil => rfl
  | cons s ss ih =>
      cases hs : s.isBlank with
      | true =>
          rw [squeezeRow_blank hs, spacing_blank hs]
          split
          · next hafter =>
            rw [h hafter]
            exact ih fun _ => rfl
          · rw [spacing_blank Segment.isBlank_space]
            exact ih fun _ => rfl
      | false =>
          rw [squeezeRow_of_not_blank hs, spacing_of_not_blank hs, spacing_of_not_blank hs,
            ih Bool.noConfusion]

/-- Blanks at the beginning are not seen behind a blank. -/
theorem spacing_blank_append {front : List Segment} (h : ∀ s ∈ front, s.isBlank = true)
    (ss : List Segment) : spacing true (front ++ ss) = spacing true ss := by
  induction front with
  | nil => rfl
  | cons s front ih =>
      obtain ⟨hs, hfront⟩ := List.forall_mem_cons.1 h
      rw [List.cons_append, spacing_blank hs, ih hfront]

/-- Blanks at the end stand before nothing. -/
theorem spacing_append_blank {back : List Segment} (h : ∀ s ∈ back, s.isBlank = true)
    (behindBlank : Bool) (ss : List Segment) :
    spacing behindBlank (ss ++ back) = spacing behindBlank ss := by
  induction ss generalizing behindBlank with
  | nil =>
      cases back with
      | nil => rfl
      | cons s back =>
          obtain ⟨hs, hback⟩ := List.forall_mem_cons.1 h
          rw [List.nil_append, spacing_blank hs, ← List.append_nil back,
            spacing_blank_append hback]
          rfl
  | cons s ss ih => rw [List.cons_append, spacing, spacing, ih, ih]

theorem spacing_trimRow (ss : List Segment) : spacing true (trimRow ss) = spacing true ss := by
  obtain ⟨front, back, heq, hfront, hback, -⟩ := Text.exists_trimBy Segment.isBlank ss
  have hall := congrArg (spacing true) heq
  rw [List.append_assoc, spacing_blank_append hfront, spacing_append_blank hback] at hall
  exact hall.symm

/-- What squeezing and trimming keep of a row. -/
theorem spacing_trimRow_squeezeRow (ss : List Segment) :
    spacing true (trimRow (squeezeRow false ss)) = spacing true ss := by
  rw [spacing_trimRow, spacing_squeezeRow Bool.noConfusion]

theorem filter_trimRow_squeezeRow (ss : List Segment) :
    (trimRow (squeezeRow false ss)).filter (fun s => !s.isBlank) =
      ss.filter fun s => !s.isBlank := by
  rw [← map_fst_spacing true, spacing_trimRow_squeezeRow, map_fst_spacing]

/-- A literal is not blank. -/
theorem literals_filter (ss : List Segment) :
    literals (ss.filter fun s => !s.isBlank) = literals ss := by
  induction ss with
  | nil => rfl
  | cons s ss ih =>
      cases hs : s.isBlank with
      | true =>
          obtain ⟨c, rfl, -⟩ := Segment.exists_of_isBlank hs
          rw [List.filter_cons_of_neg (by simp [hs]), ih]
          rfl
      | false =>
          rw [List.filter_cons_of_pos (by simp [hs])]
          cases s with
          | literal content => exact congrArg (content :: ·) ih
          | _ => exact ih

/-! ## What is left of blanks -/

/-- Blank space in a row is a single space. -/
structure Tidy (ss : List Segment) : Prop where
  space : ∀ s ∈ ss, s.isBlank = true → s = .char ' '
  single : ss.IsChain fun s t => s.isBlank = false ∨ t.isBlank = false

/-- Behind a space no blank is written. -/
theorem isBlank_of_mem_head?_squeezeRow (ss : List Segment) :
    ∀ s ∈ (squeezeRow true ss).head?, s.isBlank = false := by
  induction ss with
  | nil => simp
  | cons s ss ih =>
      cases hs : s.isBlank with
      | true =>
          rw [squeezeRow_blank hs, if_pos rfl]
          exact ih
      | false =>
          rw [squeezeRow_of_not_blank hs]
          simpa using hs

theorem tidy_squeezeRow (afterSpace : Bool) (ss : List Segment) :
    Tidy (squeezeRow afterSpace ss) := by
  induction ss generalizing afterSpace with
  | nil => exact ⟨by simp, .nil⟩
  | cons s ss ih =>
      cases hs : s.isBlank with
      | true =>
          rw [squeezeRow_blank hs]
          split
          · exact ih true
          · refine ⟨List.forall_mem_cons.2 ⟨fun _ => rfl, (ih true).space⟩,
              List.isChain_cons.2 ⟨fun t ht => .inr ?_, (ih true).single⟩⟩
            exact isBlank_of_mem_head?_squeezeRow ss t ht
      | false =>
          rw [squeezeRow_of_not_blank hs]
          refine ⟨List.forall_mem_cons.2 ⟨fun hblank => ?_, (ih false).space⟩,
            List.isChain_cons.2 ⟨fun t _ => .inl hs, (ih false).single⟩⟩
          rw [hs] at hblank
          contradiction

theorem Tidy.trimRow {ss : List Segment} (h : Tidy ss) : Tidy (trimRow ss) := by
  obtain ⟨front, back, heq, -⟩ := Text.exists_trimBy Segment.isBlank ss
  have hpart : Fragment.trimRow ss <:+: ss := ⟨front, back, heq.symm⟩
  exact ⟨fun s hs => h.space s (hpart.subset hs), h.single.infix hpart⟩

/-- Squeezing leaves a tidy row alone. -/
theorem squeezeRow_eq_self {ss : List Segment} (h : Tidy ss) {afterSpace : Bool}
    (hhead : afterSpace = true → ∀ s ∈ ss.head?, s.isBlank = false) :
    squeezeRow afterSpace ss = ss := by
  induction ss generalizing afterSpace with
  | nil => rfl
  | cons s ss ih =>
      obtain ⟨hspace, hspaces⟩ := List.forall_mem_cons.1 h.space
      obtain ⟨hfirst, hchain⟩ := List.isChain_cons.1 h.single
      cases hs : s.isBlank with
      | true =>
          -- a blank is a space here, and the next segment is none
          have hafter : ¬afterSpace = true := fun e => by
            have hsolid := hhead e s rfl
            rw [hs] at hsolid
            contradiction
          have hnext : ∀ t ∈ ss.head?, t.isBlank = false := fun t ht =>
            (hfirst t ht).resolve_left (by simp [hs])
          rw [squeezeRow_blank hs, if_neg hafter, ih ⟨hspaces, hchain⟩ fun _ => hnext, hspace hs]
      | false =>
          rw [squeezeRow_of_not_blank hs, ih ⟨hspaces, hchain⟩ Bool.noConfusion]

/-- Collapsing twice is collapsing once. -/
theorem collapseChars_collapseChars (cs : List Char) :
    collapseChars (collapseChars cs) = collapseChars cs := by
  have htidy := (tidy_squeezeRow false (scan cs)).trimRow
  obtain ⟨-, -, -, -, -, htrim⟩ := Text.exists_trimBy Segment.isBlank (squeezeRow false (scan cs))
  -- the row that is read back is tidy and trimmed, so neither step changes it
  have hself : trimRow (trimRow (squeezeRow false (scan cs))) =
      trimRow (squeezeRow false (scan cs)) := Text.trimBy_eq_self htrim
  rw [collapseChars_eq_text (collapseChars cs), scan_collapseChars,
    squeezeRow_eq_self htidy Bool.noConfusion, hself, ← collapseChars_eq_text]

/-- **Collapsing normalizes blank space outside literals and touches nothing else**, whatever
the text is. The literals stay as they are. Outside them stand the same characters, blanks
apart, in the same places among the literals; the only blank is the space, and no space follows
another. Nothing is left to trim, and what is collapsed stays as it is. Two neighbours, each a
literal or a character, have blank space between them exactly if they had it before. -/
theorem collapse_normal (sql : String) :
    literals (scan (collapse sql).toList) = literals (scan sql.toList) ∧
    (parts (collapse sql).toList).filter (fun p => !p.isBlank) =
      (parts sql.toList).filter (fun p => !p.isBlank) ∧
    (∀ c, .char c ∈ parts (collapse sql).toList → Text.isBlank c = true → c = ' ') ∧
    ¬ [.char ' ', .char ' '] <:+: parts (collapse sql).toList ∧
    Text.Trimmed Text.isBlank (collapse sql).toList ∧
    spacing true (parts (collapse sql).toList) = spacing true (parts sql.toList) ∧
    collapse (collapse sql) = collapse sql := by
  have htidy : Tidy (parts (collapseChars sql.toList)) := by
    rw [parts_collapseChars]
    exact (tidy_squeezeRow false _).trimRow
  rw [toList_collapse]
  refine ⟨?_, ?_, fun c hc hblank => ?_, fun hpart => ?_, ?_, ?_, ?_⟩
  · rw [scan_collapseChars, ← literals_filter, filter_trimRow_squeezeRow, literals_filter]
  · rw [parts_collapseChars, filter_trimRow_squeezeRow]
  · exact Segment.char.inj (htidy.space _ hc hblank)
  · have hsingle := htidy.single.infix hpart
    simp at hsingle
  · obtain ⟨-, -, -, -, -, htrim⟩ :=
      Text.exists_trimBy Text.isBlank (squeeze false (scan sql.toList))
    exact htrim
  · rw [parts_collapseChars, spacing_trimRow_squeezeRow]
  · rw [collapse, toList_collapse, collapseChars_collapseChars, collapse]

end Fragment

end SelectSql
