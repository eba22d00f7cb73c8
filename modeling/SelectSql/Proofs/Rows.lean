import SelectSql.Proofs.Pieces
import SelectSql.Proofs.QuoteRuns

/-!
# SelectSql.Proofs.Rows

Rows of segments that are read back as they were written. The scanner reads ahead at quotes and
at opening braces only, so what a segment asks of the text behind it is little: behind a literal
stands no quote, behind a quote that stands alone no literal ends (`Segment.Fits`), and behind a
brace that stands alone there is no name with its closing brace (`Fragment.Named`).

Design points:

* **Quotes and names are told apart.** A row whose quotes fit is read back up to the names in
  braces (`Fragment.plain_scan_text`); if it is named as well, it is read back as it is
  (`Fragment.scan_text`).
* **Both conditions look through words.** Quotes fit or not by the runs of quotes behind them
  (`Segment.Fits.congr`), and a brace by the characters up to the first that is not of names
  (`Text.closesName`).
* **A pass over text that only collapses or counts does not see names in braces**, so it finds
  in a text what it would find in the characters (`Fragment.plain`).
-/

namespace SelectSql

open Text (quoteRuns IsName)

/-! ## Names behind a brace -/

namespace Text

/-- Whether a text goes on with characters of names and then a closing brace. `begun` tells
that a character of the name has been read. -/
def closesName : (begun : Bool) → List Char → Bool
  | _, [] => false
  | begun, c :: cs => if isNameChar c then closesName true cs else begun && c == '\x7d'

theorem closesName_cons {c : Char} (h : isNameChar c = true) (begun : Bool) (cs : List Char) :
    closesName begun (c :: cs) = closesName true cs := by
  rw [closesName, if_pos h]

theorem closesName_sign {c : Char} (h : isNameChar c = false) (begun : Bool) (cs : List Char) :
    closesName begun (c :: cs) = (begun && c == '\x7d') := by
  rw [closesName, h, if_neg Bool.false_ne_true]

theorem closesName_eq (begun : Bool) (cs : List Char) :
    closesName begun cs = ((begun || !(cs.takeWhile isNameChar).isEmpty) &&
      (cs.dropWhile isNameChar).head? == some '\x7d') := by
  induction cs generalizing begun with
  | nil => simp [closesName]
  | cons c cs ih =>
      by_cases hc : isNameChar c = true
      · rw [closesName_cons hc, ih]
        simp [hc]
      · rw [Bool.not_eq_true] at hc
        rw [closesName_sign hc]
        simp [hc]

/-- What stands behind a text is seen through it. -/
theorem closesName_congr {ys zs : List Char}
    (h : ∀ begun, closesName begun ys = closesName begun zs) (xs : List Char) (begun : Bool) :
    closesName begun (xs ++ ys) = closesName begun (xs ++ zs) := by
  induction xs generalizing begun with
  | nil => exact h begun
  | cons c xs ih => rw [List.cons_append, List.cons_append, closesName, closesName, ih]

/-- What closes no name is not seen behind a text. -/
theorem closesName_append {back : List Char} (h : ∀ begun, closesName begun back = false)
    (begun : Bool) (cs : List Char) : closesName begun (cs ++ back) = closesName begun cs := by
  have hnil : ∀ begun, closesName begun back = closesName begun [] := h
  rw [closesName_congr hnil, List.append_nil]

theorem closesName_blank {c : Char} (h : isBlank c = true) (begun : Bool) (cs : List Char) :
    closesName begun (c :: cs) = false := by
  have hname : isNameChar c = false := by
    by_contra hname
    rw [isBlank_of_isNameChar (by simpa using hname)] at h
    contradiction
  have hbrace : (c == '\x7d') = false := by
    simpa using (isOrdinary_of_isBlank h).2.2
  rw [closesName_sign hname, hbrace, Bool.and_false]

/-- Blanks close no name. -/
theorem closesName_blanks {blanks : List Char} (h : ∀ c ∈ blanks, isBlank c = true)
    (begun : Bool) : closesName begun blanks = false := by
  cases blanks with
  | nil => rfl
  | cons c blanks => exact closesName_blank (h c List.mem_cons_self) begun blanks

end Text

namespace Fragment

/-- An opening brace opens nothing if no name and closing brace follow. -/
theorem tableName?_eq_none_iff (cs : List Char) :
    tableName? cs = none ↔ Text.closesName false cs = false := by
  rw [Text.closesName_eq, tableName?]
  split
  · next c name rest hname hrest => simp [hname, hrest]
  · next hnone =>
    refine iff_of_true rfl ?_
    cases hname : cs.takeWhile Text.isNameChar with
    | nil => rfl
    | cons c name =>
        cases hrest : cs.dropWhile Text.isNameChar with
        | nil => rfl
        | cons d rest =>
            have hd : d ≠ '\x7d' := fun e => hnone c name rest hname (by rw [hrest, e])
            simpa using hd

/-! ## Texts of rows -/

/-- The text of a row of segments. -/
def text (ss : List Segment) : List Char :=
  ss.flatMap Segment.chars

@[simp] theorem text_nil : text [] = [] := rfl

@[simp] theorem text_cons (s : Segment) (ss : List Segment) :
    text (s :: ss) = s.chars ++ text ss := rfl

@[simp] theorem text_append (ss ts : List Segment) : text (ss ++ ts) = text ss ++ text ts :=
  List.flatMap_append

@[simp] theorem text_map_char (cs : List Char) : text (cs.map .char) = cs := by
  induction cs with
  | nil => rfl
  | cons c cs ih => exact congrArg (c :: ·) ih

theorem text_scan (cs : List Char) : text (scan cs) = cs :=
  flatMap_chars_scan cs

end Fragment

namespace Segment

/-- A segment is read back in front of a text, as far as quotes are concerned. -/
def Fits : Segment → List Char → Prop
  | .literal _, cs => cs.head? ≠ some '\''
  | .marker, _ => True
  | .table name, _ => IsName name
  | .char c, cs => c ≠ '?' ∧ (c = '\'' → Text.Quoted.body? cs = none)

/-- Only the runs of quotes of the text matter. -/
theorem Fits.congr {s : Segment} {cs ds : List Char} (h : quoteRuns cs = quoteRuns ds)
    (hs : s.Fits cs) : s.Fits ds := by
  cases s with
  | literal content =>
      show ds.head? ≠ some '\''
      rw [Ne, Text.head?_eq_quote_iff, ← h, ← Text.head?_eq_quote_iff]
      exact hs
  | marker => trivial
  | table name => exact hs
  | char c =>
      refine ⟨hs.1, fun hc => ?_⟩
      rw [Text.body?_eq_none_iff, ← h, ← Text.body?_eq_none_iff]
      exact hs.2 hc

/-- A segment is no brace that opens a name in front of a text. -/
def OpensNothing (s : Segment) (cs : List Char) : Prop :=
  s = .char '\x7b' → Text.closesName false cs = false

/-- A segment whose table, if it is one, is spelled out as characters. -/
def plain : Segment → List Segment
  | .table name => (Segment.table name).chars.map .char
  | s => [s]

end Segment

namespace Fragment

/-- A row with its tables spelled out as characters. -/
def plain (ss : List Segment) : List Segment :=
  ss.flatMap Segment.plain

@[simp] theorem plain_cons (s : Segment) (ss : List Segment) :
    plain (s :: ss) = s.plain ++ plain ss := rfl

theorem plain_append (ss ts : List Segment) : plain (ss ++ ts) = plain ss ++ plain ts :=
  List.flatMap_append

theorem plain_map_char (cs : List Char) : plain (cs.map .char) = cs.map .char := by
  induction cs with
  | nil => rfl
  | cons c cs ih => exact congrArg (Segment.char c :: ·) ih

/-- Every segment of a row is in order in front of the text behind it. -/
def Along (inOrder : Segment → List Char → Prop) : List Segment → Prop
  | [] => True
  | s :: ss => inOrder s (text ss) ∧ Along inOrder ss

/-- A row whose quotes fit. -/
def Settled (ss : List Segment) : Prop :=
  Along Segment.Fits ss

/-- A row in which no brace that stands alone opens a name. -/
def Named (ss : List Segment) : Prop :=
  Along Segment.OpensNothing ss

namespace Along

variable {inOrder : Segment → List Char → Prop} {s : Segment} {ss ts : List Segment}

theorem of_append (h : Along inOrder (ss ++ ts)) : Along inOrder ts := by
  induction ss with
  | nil => exact h
  | cons s ss ih => exact ih h.2

theorem exists_of_mem (h : Along inOrder ss) (hs : s ∈ ss) : ∃ cs, inOrder s cs := by
  obtain ⟨before, after, rfl⟩ := List.append_of_mem hs
  exact ⟨_, h.of_append.1⟩

theorem append (h : ∀ s ∈ ss, ∀ cs, inOrder s cs → inOrder s (cs ++ text ts))
    (hss : Along inOrder ss) (hts : Along inOrder ts) : Along inOrder (ss ++ ts) := by
  induction ss with
  | nil => exact hts
  | cons s ss ih =>
      obtain ⟨hs, hall⟩ := List.forall_mem_cons.1 h
      rw [List.cons_append]
      refine ⟨?_, ih hall hss.2⟩
      rw [text_append]
      exact hs _ hss.1

/-- A row that is in order whatever stands behind it may stand in front of every row. -/
theorem append_of_forall (h : ∀ s ∈ ss, ∀ cs, inOrder s cs) (hts : Along inOrder ts) :
    Along inOrder (ss ++ ts) := by
  induction ss with
  | nil => exact hts
  | cons s ss ih =>
      obtain ⟨hs, hss⟩ := List.forall_mem_cons.1 h
      exact ⟨hs _, ih hss⟩

end Along

/-! ## Scanned rows -/

/-- The first segment of a text fits in front of what is behind it. -/
theorem fits_first (c : Char) (cs : List Char) : (first c cs).1.Fits (first c cs).2 := by
  unfold first
  split
  · next hc =>
    subst hc
    split
    · next hbody => exact head?_of_body? hbody
    · next hbody => exact ⟨by decide, fun _ => hbody⟩
  · next hq =>
    split
    · next hc =>
      subst hc
      split
      · next hname => exact isName_of_tableName? hname
      · exact ⟨by decide, fun h => absurd h hq⟩
    · split
      · trivial
      · next hm => exact ⟨hm, fun h => absurd h hq⟩

/-- The quotes of a scanned row fit. -/
theorem settled_scan (cs : List Char) : Settled (scan cs) := by
  fun_induction scan cs with
  | case1 => trivial
  | case2 c cs ih => exact ⟨by rw [text_scan]; exact fits_first c cs, ih⟩

/-- A scanned row is named. -/
theorem named_scan (cs : List Char) : Named (scan cs) := by
  fun_induction scan cs with
  | case1 => trivial
  | case2 c cs ih =>
      refine ⟨fun hfirst => ?_, ih⟩
      rw [text_scan]
      have hchars := chars_first c cs
      rw [hfirst] at hchars
      obtain ⟨rfl, hrest⟩ : '\x7b' = c ∧ (first c cs).2 = cs := by
        simpa [Segment.chars] using hchars
      rw [hrest, ← tableName?_eq_none_iff]
      rw [first, if_neg (by decide), if_pos rfl] at hfirst
      cases hname : tableName? cs with
      | none => rfl
      | some p =>
          rw [hname] at hfirst
          exact Segment.noConfusion hfirst

/-- A character that is no quote is read as such, if tables are not told apart. -/
theorem plain_scan_cons {c : Char} (h : c ≠ '\'') (cs : List Char) :
    plain (scan (c :: cs)) = (if c = '?' then .marker else .char c) :: plain (scan cs) := by
  by_cases hb : c = '\x7b'
  · subst hb
    rcases scan_cases h cs with ⟨s, hs, hscan⟩ | ⟨name, rest, -, -, hscan, hrest⟩
    · obtain rfl : s = .char '\x7b' := hs.resolve_left fun hm => absurd hm.2 (by decide)
      rw [hscan]
      rfl
    · rw [hscan, hrest, plain_cons, plain_append, plain_map_char, plain_cons]
      simp [Segment.plain, Segment.chars]
  · rw [scan_plain h hb, plain_cons]
    split <;> rfl

/-- A row of ordinary characters is read as such. -/
theorem plain_scan_append {word : List Char} (h : ∀ c ∈ word, c ≠ '\'' ∧ c ≠ '?')
    (cs : List Char) : plain (scan (word ++ cs)) = word.map .char ++ plain (scan cs) := by
  induction word with
  | nil => rfl
  | cons c word ih =>
      obtain ⟨⟨hq, hm⟩, hword⟩ := List.forall_mem_cons.1 h
      rw [List.cons_append, plain_scan_cons hq, if_neg hm, ih hword]
      rfl

/-- The characters of a table are neither quotes nor markers. -/
theorem ne_of_mem_chars_table {name : List Char} (h : IsName name) :
    ∀ c ∈ (Segment.table name).chars, c ≠ '\'' ∧ c ≠ '?' := by
  intro c hc
  rcases mem_chars_table hc with rfl | hc | rfl
  · decide
  · exact ne_of_isNameChar (h.2 c hc)
  · decide

/-- The characters of a table are not blank. -/
theorem isBlank_of_mem_chars_table {name : List Char} (h : IsName name) :
    ∀ c ∈ (Segment.table name).chars, Text.isBlank c = false := by
  intro c hc
  rcases mem_chars_table hc with rfl | hc | rfl
  · decide
  · exact Text.isBlank_of_isNameChar (h.2 c hc)
  · decide

/-- What is read at a quote behind which no literal ends. -/
theorem scan_lone {cs : List Char} (h : Text.Quoted.body? cs = none) :
    scan ('\'' :: cs) = .char '\'' :: scan cs := by
  rw [scan_cons, first, if_pos rfl, h]

/-- **A row whose quotes fit is read back** up to its tables. -/
theorem plain_scan_text {ss : List Segment} (h : Settled ss) :
    plain (scan (text ss)) = plain ss := by
  induction ss with
  | nil => rw [text_nil, scan_nil]
  | cons s ss ih =>
      obtain ⟨hs, hss⟩ := h
      rw [text_cons, plain_cons, ← ih hss]
      cases s with
      | literal content =>
          rw [Segment.chars, scan_encode content hs]
          rfl
      | marker => exact plain_scan_cons (by decide) (text ss)
      | table name => exact plain_scan_append (ne_of_mem_chars_table hs) (text ss)
      | char c =>
          by_cases hc : c = '\''
          · subst hc
            rw [Segment.chars, List.singleton_append, scan_lone (hs.2 rfl)]
            rfl
          · rw [Segment.chars, List.singleton_append, plain_scan_cons hc, if_neg hs.1]
            rfl

/-- A name in braces is read as a table. -/
theorem scan_table {name : List Char} (h : IsName name) (cs : List Char) :
    scan ((Segment.table name).chars ++ cs) = .table name :: scan cs := by
  have hread : tableName? (name ++ '\x7d' :: cs) = some (name, cs) :=
    tableName?_append h.1 h.2 cs
  have hchars : (Segment.table name).chars ++ cs = '\x7b' :: (name ++ '\x7d' :: cs) := by
    simp [Segment.chars]
  rw [hchars, scan_cons, first, if_neg (by decide), if_pos rfl, hread]

/-- **A named row whose quotes fit is read back as it is.** -/
theorem scan_text {ss : List Segment} (hsettled : Settled ss) (hnamed : Named ss) :
    scan (text ss) = ss := by
  induction ss with
  | nil => rw [text_nil, scan_nil]
  | cons s ss ih =>
      obtain ⟨hs, hss⟩ := hsettled
      have hrest := ih hss hnamed.2
      rw [text_cons]
      cases s with
      | literal content => rw [Segment.chars, scan_encode content hs, hrest]
      | marker =>
          rw [Segment.chars, List.singleton_append, scan_plain (by decide) (by decide), hrest]
          rfl
      | table name => rw [scan_table hs, hrest]
      | char c =>
          rw [Segment.chars, List.singleton_append]
          by_cases hc : c = '\''
          · subst hc
            rw [scan_lone (hs.2 rfl), hrest]
          · by_cases hb : c = '\x7b'
            · subst hb
              rw [scan_cons, first, if_neg hc, if_pos rfl,
                (tableName?_eq_none_iff _).2 (hnamed.1 rfl), hrest]
            · rw [scan_plain hc hb, if_neg hs.1, hrest]

end Fragment

/-! ## Trimming rows -/

namespace Segment

/-- A segment that is a blank character. -/
def isBlank : Segment → Bool
  | .char c => Text.isBlank c
  | _ => false

theorem isBlank_of_mem_chars {s : Segment} (h : s.isBlank = true) :
    ∀ c ∈ s.chars, Text.isBlank c = true := by
  intro c hc
  cases s with
  | char d =>
      obtain rfl := List.mem_singleton.1 hc
      exact h
  | _ => simp [isBlank] at h

/-- A segment that is no blank neither begins nor ends with one. -/
theorem trimmed_chars {s : Segment} (h : s.isBlank = false) :
    s.chars ≠ [] ∧ Text.Trimmed Text.isBlank s.chars := by
  have hquote : Text.isBlank '\'' = false := by decide
  have hopen : Text.isBlank '\x7b' = false := by decide
  have hclose : Text.isBlank '\x7d' = false := by decide
  have hsingle {c : Char} (hc : Text.isBlank c = false) : Text.Trimmed Text.isBlank [c] :=
    ⟨by simpa using hc, by simpa using hc⟩
  cases s with
  | literal content => exact ⟨by simp [chars, Text.Quoted.encode], .between hquote hquote _⟩
  | marker => exact ⟨by simp [chars], hsingle (by decide)⟩
  | table name => exact ⟨by simp [chars], .between hopen hclose _⟩
  | char c => exact ⟨by simp [chars], hsingle h⟩

end Segment

namespace Fragment

/-- Drops the blank characters at both ends of a row. -/
def trimRow (ss : List Segment) : List Segment :=
  Text.trimBy Segment.isBlank ss

/-- Trimming a text trims its row. -/
theorem trimChars_text (ss : List Segment) : Text.trimChars (text ss) = text (trimRow ss) :=
  Text.trimBy_flatMap (fun _ => Segment.isBlank_of_mem_chars) (fun _ => Segment.trimmed_chars) ss

theorem isBlank_of_mem_text {ss : List Segment} (h : ∀ s ∈ ss, s.isBlank = true) :
    ∀ c ∈ text ss, Text.isBlank c = true := by
  intro c hc
  obtain ⟨s, hs, hc⟩ := List.mem_flatMap.1 hc
  exact Segment.isBlank_of_mem_chars (h s hs) c hc

/-- What holds along a row holds along the trimmed row, if blanks behind a text are of no
matter. -/
theorem Along.trimRow {inOrder : Segment → List Char → Prop}
    (h : ∀ s cs blanks, (∀ c ∈ blanks, Text.isBlank c = true) →
      inOrder s (cs ++ blanks) → inOrder s cs)
    {ss : List Segment} (hss : Along inOrder ss) : Along inOrder (trimRow ss) := by
  obtain ⟨front, back, heq, -, hback, -⟩ := Text.exists_trimBy Segment.isBlank ss
  have hblanks := isBlank_of_mem_text hback
  have hdrop (ts : List Segment) (hts : Along inOrder (ts ++ back)) : Along inOrder ts := by
    induction ts with
    | nil => trivial
    | cons t ts ih =>
        refine ⟨h t (text ts) (text back) hblanks ?_, ih hts.2⟩
        rw [← text_append]
        exact hts.1
  rw [heq, List.append_assoc] at hss
  exact hdrop _ hss.of_append

theorem settled_trimRow {ss : List Segment} (h : Settled ss) : Settled (trimRow ss) := by
  refine Along.trimRow (fun s cs blanks hblanks hs => hs.congr ?_) h
  exact Text.quoteRuns_append (fun hq => Text.ne_quote_of_isBlank (hblanks _ hq) rfl) cs

theorem named_trimRow {ss : List Segment} (h : Named ss) : Named (trimRow ss) := by
  refine Along.trimRow (fun s cs blanks hblanks hs hopen => ?_) h
  rw [← Text.closesName_append (Text.closesName_blanks hblanks)]
  exact hs hopen

end Fragment

end SelectSql
