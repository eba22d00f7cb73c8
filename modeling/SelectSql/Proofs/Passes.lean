import SelectSql.Proofs.Collapsing

/-!
# SelectSql.Proofs.Passes

The three passes over text commute: collapsing blanks, putting placeholders in the place of
markers, and expanding tables. Each pass scans what the others have written, and finds in it the
segments that they have left.

Design points:

* **Markers and tables are words, and words stand for them** (`Rewords`). Whatever word stands in
  a place, the same quotes open and close literals around it, so a row that is reworded has
  quotes that fit (`Rewords.settled_replace`).
* **Collapsing and counting markers do not see names in braces**, so they find the reworded row in
  its text (`squeeze_scan_text`, `replaceMarkers_scan_text`). Expanding does see them: a name
  that has been expanded may come to stand between stray braces. Therefore expanding is never
  asked to read an expanded text, and placeholders begin with no character of names, so they
  complete no name behind a brace.

Main statement: `passes_commute`.
-/

namespace SelectSql

open Text (quoteRuns IsName)

/-! ## Words -/

namespace Segment

/-- A segment that is in order wherever it stands, and not blank. -/
def InWord : Segment → Prop
  | .literal _ => False
  | .marker => True
  | .table name => IsName name
  | .char c => c ≠ '\'' ∧ c ≠ '?' ∧ Text.isBlank c = false

namespace InWord

variable {s : Segment}

theorem fits (h : s.InWord) (cs : List Char) : s.Fits cs := by
  cases s with
  | literal content => exact h.elim
  | char c => exact ⟨h.2.1, fun hq => absurd hq h.1⟩
  | _ => exact h

theorem isBlank (h : s.InWord) : s.isBlank = false := by
  cases s with
  | char c => exact h.2.2
  | _ => rfl

theorem quote_not_mem (h : s.InWord) : '\'' ∉ s.chars := by
  cases s with
  | literal content => exact h.elim
  | marker => decide
  | table name => exact fun hq => (Fragment.ne_of_mem_chars_table h _ hq).1 rfl
  | char c => simpa [chars] using h.1.symm

end InWord

end Segment

namespace Fragment

/-- A row that may stand for a marker or a table. -/
structure IsWord (word : List Segment) : Prop where
  ne_nil : word ≠ []
  inWord : ∀ s ∈ word, s.InWord

namespace IsWord

variable {word : List Segment}

theorem singleton {s : Segment} (h : s.InWord) : IsWord [s] :=
  ⟨List.cons_ne_nil _ _, by simpa using h⟩

theorem map_char {cs : List Char} (hne : cs ≠ [])
    (h : ∀ c ∈ cs, c ≠ '\'' ∧ c ≠ '?' ∧ Text.isBlank c = false) : IsWord (cs.map .char) :=
  ⟨by simpa using hne, List.forall_mem_map.2 h⟩

/-- Of a word only its place is seen among the quotes. -/
theorem quoteRuns_append (h : IsWord word) (cs : List Char) :
    quoteRuns (text word ++ cs) = (quoteRuns cs).behindWord := by
  refine Text.quoteRuns_word ?_ ?_ cs
  · cases word with
    | nil => exact absurd rfl h.ne_nil
    | cons s word =>
        have hs := (Segment.trimmed_chars (h.inWord s List.mem_cons_self).isBlank).1
        rw [text_cons]
        exact List.append_ne_nil_of_left_ne_nil hs _
  · intro hq
    obtain ⟨s, hs, hq⟩ := List.mem_flatMap.1 hq
    exact (h.inWord s hs).quote_not_mem hq

end IsWord

/-- Every segment is kept, or it may stand in a word and a word is put in its place. -/
def Rewords (f : Nat → Segment → List Segment) : Prop :=
  ∀ k s, s.WellNamed → f k s = [s] ∨ s.InWord ∧ IsWord (f k s)

namespace Rewords

variable {f : Nat → Segment → List Segment} {ss : List Segment}

theorem keepsBlanks (hf : Rewords f) : KeepsBlanks f where
  blank k s hs := by
    obtain ⟨c, rfl, -⟩ := Segment.exists_of_isBlank hs
    refine (hf k (.char c) trivial).resolve_right fun ⟨hword, _⟩ => ?_
    rw [hword.isBlank] at hs
    contradiction
  solid k s hnamed hs := by
    rcases hf k s hnamed with hkept | ⟨-, hword⟩
    · rw [hkept]
      exact ⟨List.cons_ne_nil _ _, by simpa using hs⟩
    · exact ⟨hword.ne_nil, fun t ht => (hword.inWord t ht).isBlank⟩

/-- Rewording keeps the runs of quotes. -/
theorem quoteRuns_replace (hf : Rewords f) (hss : ∀ s ∈ ss, s.WellNamed) (k : Nat) :
    quoteRuns (text (replace f k ss)) = quoteRuns (text ss) := by
  induction ss generalizing k with
  | nil => rfl
  | cons s ss ih =>
      obtain ⟨hs, hss⟩ := List.forall_mem_cons.1 hss
      rw [replace, text_append, text_cons]
      rcases hf k s hs with hkept | ⟨hself, hword⟩
      · rw [hkept, text_cons, text_nil, List.append_nil]
        exact Text.quoteRuns_congr (ih hss _) s.chars
      · have hplace := (IsWord.singleton hself).quoteRuns_append (text ss)
        rw [text_cons, text_nil, List.append_nil] at hplace
        rw [hword.quoteRuns_append, ih hss, hplace]

/-- **The quotes of a reworded row fit** if they fitted before. -/
theorem settled_replace (hf : Rewords f) (hss : Settled ss) (k : Nat) :
    Settled (replace f k ss) := by
  induction ss generalizing k with
  | nil => trivial
  | cons s ss ih =>
      obtain ⟨hs, hss⟩ := hss
      rw [replace]
      rcases hf k s hs.wellNamed with hkept | ⟨-, hword⟩
      · rw [hkept]
        exact ⟨hs.congr (hf.quoteRuns_replace (Settled.wellNamed hss) _).symm, ih hss _⟩
      · exact Along.append_of_forall (fun t ht => (hword.inWord t ht).fits) (ih hss _)

end Rewords

/-! ## What collapsing and counting find -/

theorem text_plain (ss : List Segment) : text (plain ss) = text ss := by
  induction ss with
  | nil => rfl
  | cons s ss ih =>
      rw [plain_cons, text_append, text_cons, ih]
      cases s with
      | table name => rw [Segment.plain, text_map_char]
      | _ => simp [Segment.plain]

/-- Tables spelled out are words. -/
theorem rewords_plain : Rewords fun _ => Segment.plain := by
  intro k s hs
  cases s with
  | table name =>
      refine .inr ⟨hs, .map_char (List.cons_ne_nil _ _) fun c hc => ?_⟩
      have hne := ne_of_mem_chars_table hs c hc
      exact ⟨hne.1, hne.2, isBlank_of_mem_chars_table hs c hc⟩
  | _ => exact .inl rfl

/-- Squeezing does not see names in braces. -/
theorem squeeze_plain {ss : List Segment} (h : ∀ s ∈ ss, s.WellNamed) (afterSpace : Bool) :
    squeeze afterSpace (plain ss) = squeeze afterSpace ss := by
  have hplain (ts : List Segment) : replace (fun _ => Segment.plain) 0 ts = plain ts :=
    replace_eq_flatMap _ 0 ts
  rw [← text_squeezeRow, ← text_squeezeRow, ← hplain,
    rewords_plain.keepsBlanks.squeezeRow_replace h, hplain, text_plain]

/-- Squeezing finds a row whose quotes fit in its text. -/
theorem squeeze_scan_text {ss : List Segment} (h : Settled ss) (afterSpace : Bool) :
    squeeze afterSpace (scan (text ss)) = squeeze afterSpace ss := by
  rw [← squeeze_plain (settled_scan _).wellNamed, plain_scan_text h, squeeze_plain h.wellNamed]

theorem replaceMarkers_map_char (f : Nat → List Char) (k : Nat) (cs : List Char)
    (ss : List Segment) :
    replaceMarkers f k (cs.map .char ++ ss) = cs ++ replaceMarkers f k ss := by
  induction cs with
  | nil => rfl
  | cons c cs ih => exact congrArg (c :: ·) ih

/-- Counting markers does not see names in braces. -/
theorem replaceMarkers_plain (f : Nat → List Char) (k : Nat) (ss : List Segment) :
    replaceMarkers f k (plain ss) = replaceMarkers f k ss := by
  induction ss generalizing k with
  | nil => rfl
  | cons s ss ih =>
      rw [plain_cons]
      cases s with
      | table name =>
          rw [Segment.plain, replaceMarkers_map_char, ih, replaceMarkers]
          exact Segment.noConfusion
      | marker => exact congrArg (f k ++ ·) (ih (k + 1))
      | literal content => exact congrArg (Text.Quoted.encode content ++ ·) (ih k)
      | char c => exact congrArg (c :: ·) (ih k)

/-- The markers of a row whose quotes fit are found in its text. -/
theorem replaceMarkers_scan_text {ss : List Segment} (h : Settled ss) (f : Nat → List Char)
    (k : Nat) : replaceMarkers f k (scan (text ss)) = replaceMarkers f k ss := by
  rw [← replaceMarkers_plain, plain_scan_text h, replaceMarkers_plain]

/-! ## The passes on rows -/

end Fragment

/-- A text that is written for a marker. It has neither quotes, braces nor blanks, and does not
begin like a name. -/
structure Text.IsPlaceholder (cs : List Char) : Prop where
  ordinary : ∀ c ∈ cs, IsOrdinary c ∧ isBlank c = false
  sign : ∃ c rest, cs = c :: rest ∧ isNameChar c = false

namespace Segment

/-- A placeholder as a row. That of some engines is a marker again. -/
def placeholder (cs : List Char) : List Segment :=
  cs.map fun c => if c = '?' then .marker else .char c

/-- A segment with `f k` in the place of a marker that `k` others stand before. -/
def rewritten (f : Nat → List Char) (k : Nat) : Segment → List Segment
  | .marker => placeholder (f k)
  | s => [s]

theorem rewritten_of_ne {s : Segment} (h : s ≠ .marker) (f : Nat → List Char) (k : Nat) :
    s.rewritten f k = [s] := by
  cases s with
  | marker => exact absurd rfl h
  | _ => rfl

/-- A segment with the name of a table behind a beginning. -/
def expanded (beginning : List Char) : Segment → List Segment
  | .table name => (beginning ++ name).map .char
  | s => [s]

end Segment

namespace Fragment

variable {f : Nat → List Char} {beginning : List Char}

theorem text_placeholder (cs : List Char) : text (Segment.placeholder cs) = cs := by
  induction cs with
  | nil => rfl
  | cons c cs ih =>
      rw [Segment.placeholder, List.map_cons, text_cons, ← Segment.placeholder, ih]
      split
      · next hc => rw [hc, Segment.chars, List.singleton_append]
      · rfl

theorem replaceMarkers_eq_text (f : Nat → List Char) (k : Nat) (ss : List Segment) :
    replaceMarkers f k ss = text (replace (Segment.rewritten f) k ss) := by
  induction ss generalizing k with
  | nil => rfl
  | cons s ss ih =>
      rw [replace, text_append, ← ih]
      cases s with
      | marker => rw [Segment.rewritten, text_placeholder, replaceMarkers, if_pos rfl]
      | _ =>
          rw [Segment.rewritten_of_ne Segment.noConfusion, if_neg Segment.noConfusion, text_cons,
            text_nil, List.append_nil, replaceMarkers]
          exact Segment.noConfusion

theorem replaceTables_eq_text (beginning : List Char) (ss : List Segment) :
    replaceTables (beginning ++ ·) ss = text (ss.flatMap (Segment.expanded beginning)) := by
  induction ss with
  | nil => rfl
  | cons s ss ih =>
      rw [List.flatMap_cons, text_append, ← ih]
      cases s with
      | table name => rw [Segment.expanded, text_map_char, replaceTables]
      | _ =>
          rw [Segment.expanded, text_cons, text_nil, List.append_nil, replaceTables]
          · exact fun _ => Segment.noConfusion
          · exact fun _ => Segment.noConfusion

theorem isWord_placeholder {cs : List Char} (h : Text.IsPlaceholder cs) :
    IsWord (Segment.placeholder cs) := by
  refine ⟨?_, fun s hs => ?_⟩
  · obtain ⟨c, rest, rfl, -⟩ := h.sign
    exact List.cons_ne_nil _ _
  · obtain ⟨c, hc, rfl⟩ := List.mem_map.1 hs
    split
    · trivial
    · next hm => exact ⟨(h.ordinary c hc).1.1, hm, (h.ordinary c hc).2⟩

theorem rewords_rewritten (hf : ∀ k, Text.IsPlaceholder (f k)) :
    Rewords (Segment.rewritten f) := by
  intro k s hs
  cases s with
  | marker => exact .inr ⟨trivial, isWord_placeholder (hf k)⟩
  | _ => exact .inl rfl

theorem rewords_expanded (hb : ∀ c ∈ beginning, Text.isNameChar c = true) :
    Rewords fun _ => Segment.expanded beginning := by
  intro k s hs
  cases s with
  | table name =>
      refine .inr ⟨hs, .map_char (List.append_ne_nil_of_right_ne_nil _ hs.1) fun c hc => ?_⟩
      have hname : Text.isNameChar c = true := (List.mem_append.1 hc).elim (hb c) (hs.2 c)
      exact ⟨(ne_of_isNameChar hname).1, (ne_of_isNameChar hname).2,
        Text.isBlank_of_isNameChar hname⟩
  | _ => exact .inl rfl

/-- A placeholder completes no name behind a brace. -/
theorem closesName_rewritten (hf : ∀ k, Text.IsPlaceholder (f k)) (ss : List Segment) (k : Nat)
    (begun : Bool) :
    Text.closesName begun (text (replace (Segment.rewritten f) k ss)) =
      Text.closesName begun (text ss) := by
  induction ss generalizing k begun with
  | nil => rfl
  | cons s ss ih =>
      rw [replace, text_append, text_cons]
      cases s with
      | marker =>
          obtain ⟨c, rest, hc, hsign⟩ := (hf k).sign
          have hclose : c ≠ '\x7d' := ((hf k).ordinary c (by simp [hc])).1.2.2
          have hmark : Text.isNameChar '?' = false := by decide
          rw [Segment.rewritten, text_placeholder, hc, Segment.chars, List.cons_append,
            List.singleton_append, Text.closesName_sign hsign, Text.closesName_sign hmark,
            beq_false_of_ne hclose, beq_false_of_ne (by decide)]
      | _ =>
          rw [Segment.rewritten_of_ne Segment.noConfusion, text_cons, text_nil, List.append_nil]
          exact Text.closesName_congr (ih _) _ begun

theorem named_rewritten (hf : ∀ k, Text.IsPlaceholder (f k)) {ss : List Segment} (h : Named ss)
    (k : Nat) : Named (replace (Segment.rewritten f) k ss) := by
  induction ss generalizing k with
  | nil => trivial
  | cons s ss ih =>
      obtain ⟨hs, hss⟩ := h
      rw [replace]
      cases s with
      | marker =>
          -- a placeholder has no brace
          refine Along.append_of_forall (fun t ht cs hopen => ?_) (ih hss _)
          obtain ⟨c, hc, rfl⟩ := List.mem_map.1 ht
          split at hopen
          · exact Segment.noConfusion hopen
          · exact absurd (Segment.char.inj hopen) ((hf k).ordinary c hc).1.2.1
      | _ =>
          exact ⟨fun hopen => (closesName_rewritten hf ss _ false).trans (hs hopen), ih hss _⟩

/-! ## The passes commute -/

theorem replace_map_char (f : Nat → List Char) (k : Nat) (cs : List Char) (ss : List Segment) :
    replace (Segment.rewritten f) k (cs.map .char ++ ss) =
      cs.map .char ++ replace (Segment.rewritten f) k ss := by
  induction cs with
  | nil => rfl
  | cons c cs ih => exact congrArg (Segment.char c :: ·) ih

/-- Rewriting and expanding change different segments of a row. -/
theorem flatMap_expanded_rewritten (f : Nat → List Char) (beginning : List Char) (k : Nat)
    (ss : List Segment) :
    (replace (Segment.rewritten f) k ss).flatMap (Segment.expanded beginning) =
      replace (Segment.rewritten f) k (ss.flatMap (Segment.expanded beginning)) := by
  have hplaceholder (cs : List Char) :
      (Segment.placeholder cs).flatMap (Segment.expanded beginning) = Segment.placeholder cs := by
    rw [Segment.placeholder, List.flatMap_map, List.map_eq_flatMap]
    refine List.flatMap_congr fun c _ => ?_
    split <;> rfl
  induction ss generalizing k with
  | nil => rfl
  | cons s ss ih =>
      rw [replace, List.flatMap_append, List.flatMap_cons, ih]
      cases s with
      | table name =>
          rw [Segment.expanded, replace_map_char, if_neg Segment.noConfusion,
            Segment.rewritten_of_ne Segment.noConfusion, List.flatMap_singleton, Segment.expanded]
      | marker =>
          rw [Segment.rewritten, hplaceholder]
          rfl
      | _ => rfl

/-- **Collapsing commutes with rewording.** -/
theorem collapseChars_replace {f : Nat → Segment → List Segment} (hf : Rewords f) (k : Nat)
    (cs : List Char) :
    collapseChars (text (replace f k (scan cs))) =
      text (replace f k (scan (collapseChars cs))) := by
  have hscan := settled_scan cs
  rw [collapseChars, squeeze_scan_text (hf.settled_replace hscan k), ← text_squeezeRow,
    trimChars_text, hf.keepsBlanks.squeezeRow_replace hscan.wellNamed,
    hf.keepsBlanks.trimRow_replace (settled_squeezeRow hscan).wellNamed, scan_collapseChars]

/-- **Rewriting markers commutes with expanding tables.** -/
theorem replaceMarkers_replaceTables (hf : ∀ k, Text.IsPlaceholder (f k))
    (hb : ∀ c ∈ beginning, Text.isNameChar c = true) (k : Nat) (cs : List Char) :
    replaceMarkers f k (scan (replaceTables (beginning ++ ·) (scan cs))) =
      replaceTables (beginning ++ ·) (scan (replaceMarkers f k (scan cs))) := by
  have hsettled : Settled ((scan cs).flatMap (Segment.expanded beginning)) := by
    rw [← replace_eq_flatMap _ 0]
    exact (rewords_expanded hb).settled_replace (settled_scan cs) 0
  have hread : scan (text (replace (Segment.rewritten f) k (scan cs))) =
      replace (Segment.rewritten f) k (scan cs) :=
    scan_text ((rewords_rewritten hf).settled_replace (settled_scan cs) k)
      (named_rewritten hf (named_scan cs) k)
  -- of the expanded text only the markers are looked for, but the rewritten text is read in full
  rw [replaceTables_eq_text, replaceTables_eq_text, replaceMarkers_scan_text hsettled,
    replaceMarkers_eq_text, replaceMarkers_eq_text, hread, flatMap_expanded_rewritten]

end Fragment

/-- What an engine writes for a parameter is a placeholder. -/
theorem Dialect.isPlaceholder_placeholder (d : Dialect) (index : Nat) :
    Text.IsPlaceholder (d.placeholder index).toList := by
  have hslot : ∀ c ∈ slotChars, Text.IsOrdinary c ∧ Text.isBlank c = false := by decide
  refine ⟨fun c hc => hslot c ((SlotWord.placeholder d index).chars c hc), ?_⟩
  rw [d.toList_placeholder]
  cases d with
  | postgres => exact ⟨'$', _, rfl, by decide⟩
  | sqlServer => exact ⟨'@', _, rfl, by decide⟩
  | generic | mySql | sqlite => exact ⟨'?', _, rfl, by decide⟩

namespace Fragment

/-- **The three passes commute**, on any text, whether its quotes are balanced or not, and with
stray braces in it: collapsing blanks, writing the placeholders of an engine for the markers,
whatever numbers they get, and expanding tables behind a beginning made of characters of names. -/
theorem passes_commute (sql beginning : String)
    (h : ∀ c ∈ beginning.toList, Text.isNameChar c = true) (d : Dialect) (number : Nat → Nat) :
    collapse (expandTables beginning sql) = expandTables beginning (collapse sql) ∧
    rewriteMarkers (fun i => d.placeholder (number i)) (collapse sql) =
      collapse (rewriteMarkers (fun i => d.placeholder (number i)) sql) ∧
    rewriteMarkers (fun i => d.placeholder (number i)) (expandTables beginning sql) =
      expandTables beginning (rewriteMarkers (fun i => d.placeholder (number i)) sql) := by
  have hf (k : Nat) : Text.IsPlaceholder (d.placeholder (number k)).toList :=
    d.isPlaceholder_placeholder (number k)
  have hexpand := collapseChars_replace (rewords_expanded h) 0 sql.toList
  have hrewrite := collapseChars_replace (rewords_rewritten hf) 0 sql.toList
  rw [replace_eq_flatMap, replace_eq_flatMap, ← replaceTables_eq_text, ← replaceTables_eq_text]
    at hexpand
  rw [← replaceMarkers_eq_text, ← replaceMarkers_eq_text] at hrewrite
  refine ⟨?_, ?_, ?_⟩
  · rw [expandTables, expandTables, toList_collapse, ← hexpand, collapse, String.toList_ofList]
  · rw [rewriteMarkers, rewriteMarkers, toList_collapse, ← hrewrite, collapse,
      String.toList_ofList]
  · rw [rewriteMarkers, rewriteMarkers, expandTables, expandTables, String.toList_ofList,
      String.toList_ofList, replaceMarkers_replaceTables hf h]

/-- A text with stray braces, blanks and markers in a literal, and a quote that is not closed. -/
def straySample : String :=
  "  \x7b\x7busers\x7d\x7d  u = '?  ''' AND \x7b?\x7d  'x'' \t ?  \x7btags_1\x7d \x7b "

theorem passes_commute_straySample :
    (∀ c ∈ "app_1".toList, Text.isNameChar c = true) ∧
    collapse (expandTables "app_1" straySample) = expandTables "app_1" (collapse straySample) ∧
    rewriteMarkers (fun i => Dialect.postgres.placeholder (i + 1)) (collapse straySample) =
      collapse (rewriteMarkers (fun i => Dialect.postgres.placeholder (i + 1)) straySample) ∧
    rewriteMarkers (fun i => Dialect.postgres.placeholder (i + 1))
        (expandTables "app_1" straySample) =
      expandTables "app_1"
        (rewriteMarkers (fun i => Dialect.postgres.placeholder (i + 1)) straySample) := by
  have h : ∀ c ∈ "app_1".toList, Text.isNameChar c = true := by decide
  exact ⟨h, passes_commute straySample "app_1" h .postgres (· + 1)⟩

end Fragment

end SelectSql
