import SelectSql.Proofs.Rows

/-!
# SelectSql.Proofs.Sides

On which side of the quotes a place of a text is, told without the scanner. In a balanced text a
place is outside literals if an even number of quotes stands before it. In any other text one
quote opens no literal, and it is known which one: the first of the last run of quotes of odd
length. If it is left out, the parity tells the sides again.

Design points:

* **A balanced beginning is read by itself** (`Fragment.scan_append`), whatever follows it, if
  that neither goes on with a quote nor closes a name. So what the scanner reads at a place
  depends on the place being outside only.
* **The quote that stands alone is found in the row** (`Fragment.exists_loneQuote`). Before it
  all segments are sound, and behind it all runs of quotes are even, so both sides are balanced.

Main statement: markers and tables are read where the parity tells the outside
(`Fragment.reads_iff`).
-/

namespace SelectSql

open Text (quoteRuns IsName)

/-! ## Runs of quotes -/

namespace Text

/-- A maximal run of `n` quotes in a text, with what stands before and behind it. -/
structure QuoteRun (cs front : List Char) (n : Nat) (back : List Char) : Prop where
  eq : cs = front ++ (List.replicate n '\'' ++ back)
  front_last : front.getLast? ≠ some '\''
  back_head : back.head? ≠ some '\''

/-- The last of the runs of quotes that are of odd length begins behind `front`. -/
structure LastOddRun (cs front : List Char) : Prop where
  odd : ∃ n back, QuoteRun cs front n back ∧ n % 2 = 1
  last : ∀ later n back, QuoteRun cs later n back → front.length < later.length → n % 2 = 0

/-- A place, by the text in front of it, is outside literals. In a text that is not balanced the
first quote of the last run of odd length does not count. -/
def Outside (cs front : List Char) : Prop :=
  if Balanced cs then Balanced front
  else ∃ lone, LastOddRun cs lone ∧ Balanced (front.eraseIdx lone.length)

theorem balanced_append {xs : List Char} (h : Balanced xs) (ys : List Char) :
    Balanced (xs ++ ys) ↔ Balanced ys := by
  rw [balanced_iff, balanced_iff, insideAfter_append, balanced_iff.1 h]

/-- Where a text begins with a run of quotes, its runs are this one and those behind it. -/
theorem quoteRuns_replicate (n : Nat) {back : List Char} (h : back.head? ≠ some '\'') :
    quoteRuns (List.replicate n '\'' ++ back) = ⟨n, (quoteRuns back).later⟩ := by
  induction n with
  | zero =>
      have hfirst : (quoteRuns back).first = 0 := by
        by_contra hfirst
        exact h (head?_eq_quote_iff.2 hfirst)
      rw [List.replicate_zero, List.nil_append, ← hfirst]
  | succ n ih => rw [List.replicate_succ, List.cons_append, quoteRuns_quote, ih]

/-- A text begins with a run of quotes, which may be empty. -/
theorem exists_quoteRun_nil (cs : List Char) :
    ∃ back, QuoteRun cs [] (quoteRuns cs).first back := by
  induction cs with
  | nil => exact ⟨[], rfl, by simp, by simp⟩
  | cons c cs ih =>
      by_cases hc : c = '\''
      · subst hc
        obtain ⟨back, heq, hlast, hhead⟩ := ih
        refine ⟨back, ?_, hlast, hhead⟩
        rw [quoteRuns_quote, List.replicate_succ, List.nil_append, List.cons_append]
        exact congrArg ('\'' :: ·) heq
      · refine ⟨c :: cs, ?_, by simp, by simpa using hc⟩
        rw [quoteRuns_cons hc]
        rfl

/-- The later runs of the end of a text are later runs of the text. -/
theorem later_subset (front cs : List Char) :
    (quoteRuns cs).later ⊆ (quoteRuns (front ++ cs)).later := by
  induction front with
  | nil => exact List.Subset.refl _
  | cons c front ih =>
      rw [List.cons_append, quoteRuns]
      split
      · exact ih
      · refine List.Subset.trans ih ?_
        rw [QuoteRuns.behindWord]
        split
        · exact List.Subset.refl _
        · exact List.subset_cons_self _ _

/-- If no run is cut, the runs of the end of a text are runs of the text. -/
theorem isEven_of_append {front cs : List Char} (hlast : front.getLast? ≠ some '\'')
    (h : (quoteRuns (front ++ cs)).IsEven) : (quoteRuns cs).IsEven := by
  rcases List.eq_nil_or_concat front with rfl | ⟨front, c, rfl⟩
  · exact h
  · rw [List.concat_eq_append] at h hlast
    have hc : c ≠ '\'' := by simpa using hlast
    -- behind the word that ends with `c` all runs are later runs
    rw [← QuoteRuns.isEven_behindWord, ← quoteRuns_cons hc]
    rw [List.append_assoc, List.singleton_append] at h
    refine ⟨?_, fun n hn => h.2 n (later_subset front _ hn)⟩
    rw [quoteRuns_cons hc]
    rfl

theorem QuoteRun.even {cs front back : List Char} {n : Nat} (h : QuoteRun cs front n back)
    (heven : (quoteRuns cs).IsEven) : n % 2 = 0 := by
  rw [h.eq] at heven
  have hrun := (isEven_of_append h.front_last heven).1
  rwa [quoteRuns_replicate n h.back_head] at hrun

/-- There is one last run of odd length at most. -/
theorem LastOddRun.unique {cs front front' : List Char} (h : LastOddRun cs front)
    (h' : LastOddRun cs front') : front = front' := by
  obtain ⟨n, back, hrun, hodd⟩ := h.odd
  obtain ⟨n', back', hrun', hodd'⟩ := h'.odd
  have hle : front.length ≤ front'.length := by
    by_contra hlt
    have heven := h'.last front n back hrun (by omega)
    omega
  have hge : front'.length ≤ front.length := by
    by_contra hlt
    have heven := h.last front' n' back' hrun' (by omega)
    omega
  exact (List.append_inj (hrun.eq.symm.trans hrun'.eq) (by omega)).1

/-- In a text that is not balanced, the first quote of the last odd run does not count. -/
theorem outside_iff {cs lone front : List Char} (hcs : ¬Balanced cs) (h : LastOddRun cs lone) :
    Outside cs front ↔ Balanced (front.eraseIdx lone.length) := by
  rw [Outside, if_neg hcs]
  exact ⟨fun ⟨lone', h', hbal⟩ => h'.unique h ▸ hbal, fun hbal => ⟨lone, h, hbal⟩⟩

/-- A quote behind which no literal ends begins the last run of odd length, if no other quote
stands right before it. -/
theorem lastOddRun_of_lone {pre post : List Char} (hlast : pre.getLast? ≠ some '\'')
    (hbody : Quoted.body? post = none) : LastOddRun (pre ++ '\'' :: post) pre := by
  have heven := (body?_eq_none_iff post).1 hbody
  obtain ⟨back, heq, -, hhead⟩ := exists_quoteRun_nil post
  constructor
  · refine ⟨(quoteRuns post).first + 1, back, ⟨?_, hlast, hhead⟩, ?_⟩
    · rw [List.replicate_succ, List.cons_append]
      exact congrArg (pre ++ '\'' :: ·) heq
    · have hfirst := heven.1
      omega
  · intro later n back' hrun hlt
    -- the later run is one of the rest, as it does not go on from the quote
    have hlength : (pre ++ ['\'']).length ≤ later.length := by
      rw [List.length_append, List.length_singleton]
      exact hlt
    have hprefix : pre ++ ['\''] <+: later :=
      List.prefix_of_prefix_length_le ⟨post, by simp⟩ ⟨_, hrun.eq.symm⟩ hlength
    obtain ⟨rest, rfl⟩ := hprefix
    have hpost : post = rest ++ (List.replicate n '\'' ++ back') := by
      have hall := hrun.eq
      rw [List.append_assoc, List.append_assoc, List.append_cancel_left_eq] at hall
      exact List.tail_eq_of_cons_eq hall
    have hrest : rest.getLast? ≠ some '\'' := by
      intro hquote
      refine hrun.front_last ?_
      rw [List.getLast?_append, hquote, Option.some_or]
    exact QuoteRun.even ⟨hpost, hrest, hrun.back_head⟩ heven

end Text

/-! ## Sound segments -/

namespace Segment

/-- A segment that fits is sound, unless it is a quote that stands alone. -/
theorem Fits.sound {s : Segment} {cs : List Char} (h : s.Fits cs) (hne : s ≠ .char '\'') :
    s.Sound := by
  cases s with
  | table name => exact h.2
  | char c => exact ⟨fun hc => hne (congrArg _ hc), h.1⟩
  | _ => trivial

/-- A segment that stands for something else in a text: a marker or a table. -/
def IsPlace : Segment → Prop
  | .marker => True
  | .table name => IsName name
  | _ => False

end Segment

namespace Fragment

variable {s : Segment} {ss ts : List Segment} {cs front rest : List Char}

theorem balanced_text (h : ∀ s ∈ ss, s.Sound) : Text.Balanced (text ss) := by
  rw [Text.balanced_iff]
  induction ss with
  | nil => rfl
  | cons s ss ih =>
      obtain ⟨hs, hss⟩ := List.forall_mem_cons.1 h
      rw [text_cons, Text.insideAfter_append, insideAfter_chars hs, ih hss]

/-- **A balanced beginning is read by itself.** -/
theorem scan_append (hfront : Text.Balanced front) (hquote : rest.head? ≠ some '\'')
    (hname : ∀ begun, Text.closesName begun rest = false) :
    scan (front ++ rest) = scan front ++ scan rest := by
  have htext : front ++ rest = text (scan front ++ scan rest) := by
    rw [text_append, text_scan, text_scan]
  have hsound := sound_scan (Text.balanced_iff.1 hfront)
  rw [htext]
  refine scan_text ?_ ?_
  · refine Along.append (fun s hs cs hfits => ?_) (settled_scan front) (settled_scan rest)
    rw [text_scan]
    cases s with
    | literal content =>
        show (cs ++ rest).head? ≠ some '\''
        rw [List.head?_append]
        cases cs with
        | nil => exact hquote
        | cons c cs => exact hfits
    | char c => exact ⟨hfits.1, fun hc => absurd hc (hsound _ hs).1⟩
    | _ => exact hfits
  · refine Along.append (fun s hs cs hopens hopen => ?_) (named_scan front) (named_scan rest)
    rw [text_scan, Text.closesName_append hname]
    exact hopens hopen

/-! ## What is read at a place -/

/-- Behind `front` the scanner reads a segment. -/
def Reads (cs front : List Char) (s : Segment) : Prop :=
  ∃ before after, scan cs = before ++ s :: after ∧ text before = front

theorem Reads.stands (h : Reads cs front s) : front ++ s.chars <+: cs := by
  obtain ⟨before, after, hscan, rfl⟩ := h
  refine ⟨text after, ?_⟩
  rw [← text_scan cs, hscan, text_append, text_cons, List.append_assoc]

theorem Reads.isName {name : List Char} (h : Reads cs front (.table name)) : IsName name := by
  obtain ⟨before, after, hscan, -⟩ := h
  have hsettled := settled_scan cs
  rw [hscan] at hsettled
  exact hsettled.of_append.1

/-- What is read in the end of a text, if the end is read by itself. -/
theorem Reads.behind {ss : List Segment} (hscan : scan cs = ss ++ scan rest)
    (h : Reads rest front s) : Reads cs (text ss ++ front) s := by
  obtain ⟨before, after, hrest, rfl⟩ := h
  exact ⟨ss ++ before, after, by rw [hscan, hrest, List.append_assoc], text_append _ _⟩

/-- A place that stands behind a balanced text is read there. -/
theorem reads_of_balanced (hs : s.IsPlace) (hfront : Text.Balanced front)
    (hstands : front ++ s.chars <+: cs) : Reads cs front s := by
  obtain ⟨rest, rfl⟩ := hstands
  have hscan : scan (s.chars ++ rest) = s :: scan rest := by
    cases s with
    | marker => exact scan_plain (by decide) (by decide) rest
    | table name => exact scan_table hs rest
    | _ => exact hs.elim
  have hquote : (s.chars ++ rest).head? ≠ some '\'' := by
    cases s with
    | marker | table name => simp [Segment.chars]
    | _ => exact hs.elim
  have hname : ∀ begun, Text.closesName begun (s.chars ++ rest) = false := by
    intro begun
    cases s with
    | marker | table name =>
        refine (Text.closesName_sign (by decide) begun _).trans ?_
        rw [beq_false_of_ne (by decide), Bool.and_false]
    | _ => exact hs.elim
  refine ⟨scan front, scan rest, ?_, text_scan front⟩
  rw [List.append_assoc, scan_append hfront hquote hname, hscan]

/-- The quote of a text that opens no literal and closes none. All segments before it are sound,
and no literal ends behind it. -/
structure LoneQuote (cs : List Char) (before : List Segment) (post : List Char) : Prop where
  scan_eq : scan cs = before ++ .char '\'' :: scan post
  sound : ∀ s ∈ before, s.Sound
  last : (text before).getLast? ≠ some '\''
  body : Text.Quoted.body? post = none

/-- In a text that is not balanced a quote stands alone. -/
theorem exists_loneQuote (h : ¬Text.Balanced cs) : ∃ before post, LoneQuote cs before post := by
  have hlone : Segment.char '\'' ∈ scan cs := by
    by_contra hnone
    refine h ?_
    rw [← text_scan cs]
    refine balanced_text fun s hs => ?_
    obtain ⟨rest, hfits⟩ := (settled_scan cs).exists_of_mem hs
    exact hfits.sound fun hquote => hnone (hquote ▸ hs)
  obtain ⟨before, after, hscan, hfirst⟩ := List.eq_append_cons_of_mem hlone
  have hsettled : Settled (before ++ .char '\'' :: after) := hscan ▸ settled_scan cs
  have hnamed : Named (before ++ .char '\'' :: after) := hscan ▸ named_scan cs
  have hafter : scan (text after) = after := scan_text hsettled.of_append.2 hnamed.of_append.2
  have hsound : ∀ s ∈ before, s.Sound := fun s hs => by
    obtain ⟨rest, hfits⟩ := hsettled.exists_of_mem (List.mem_append_left _ hs)
    exact hfits.sound fun hquote => hfirst (hquote ▸ hs)
  refine ⟨before, text after, by rw [hafter, hscan], hsound, ?_, hsettled.of_append.1.2 rfl⟩
  -- a literal would go on with the quote, and nothing else ends with one
  rcases List.eq_nil_or_concat before with rfl | ⟨before, s, rfl⟩
  · simp
  · rw [List.concat_eq_append] at hsettled hsound ⊢
    rw [List.append_assoc] at hsettled
    have hfits : s.Fits ('\'' :: text after) := hsettled.of_append.1
    have hs := hsound s (by simp)
    rw [text_append, text_cons, text_nil, List.append_nil]
    cases s with
    | literal content => exact absurd rfl hfits
    | marker => simp [Segment.chars]
    | table name =>
        rw [Segment.chars, ← List.cons_append, ← List.append_assoc, List.getLast?_concat]
        decide
    | char c => simpa [Segment.chars] using hs.1

namespace LoneQuote

variable {before : List Segment} {post : List Char}

theorem eq_text (h : LoneQuote cs before post) : cs = text before ++ '\'' :: post := by
  rw [← text_scan cs, h.scan_eq, text_append, text_cons, text_scan]
  rfl

theorem lastOddRun (h : LoneQuote cs before post) : Text.LastOddRun cs (text before) := by
  rw [h.eq_text]
  exact Text.lastOddRun_of_lone h.last h.body

theorem sound_post (h : LoneQuote cs before post) : ∀ s ∈ scan post, s.Sound := by
  have hinside := Text.insideAfter_of_body?_eq_none h.body
  rw [Text.insideAfter_eq] at hinside
  refine sound_scan ?_
  rw [Text.insideAfter_eq]
  simpa using hinside

/-- Before the quote the parity tells the sides. -/
theorem outside_before (h : LoneQuote cs before post) (hcs : ¬Text.Balanced cs)
    (hle : front.length ≤ (text before).length) :
    Text.Outside cs front ↔ Text.Balanced front := by
  rw [Text.outside_iff hcs h.lastOddRun, List.eraseIdx_of_length_le hle]

/-- Behind the quote the parity tells the sides, counted from there. -/
theorem outside_behind (h : LoneQuote cs before post) (hcs : ¬Text.Balanced cs) :
    Text.Outside cs (text before ++ '\'' :: front) ↔ Text.Balanced front := by
  rw [Text.outside_iff hcs h.lastOddRun, List.eraseIdx_append_of_length_le (Nat.le_refl _),
    Nat.sub_self, List.eraseIdx_cons_zero, Text.balanced_append (balanced_text h.sound)]

/-- What is read is read before the quote or behind it. -/
theorem outside_of_reads (h : LoneQuote cs before post) (hcs : ¬Text.Balanced cs)
    (hne : s ≠ .char '\'') (hreads : Reads cs front s) : Text.Outside cs front := by
  obtain ⟨before', after', hscan, rfl⟩ := hreads
  rw [h.scan_eq, List.append_eq_append_iff] at hscan
  rcases hscan with ⟨between, rfl, hbetween⟩ | ⟨between, rfl, -⟩
  · rcases List.cons_eq_append_iff.1 hbetween with ⟨-, hcons⟩ | ⟨behind, rfl, hbehind⟩
    · exact absurd (List.cons.inj hcons).1 hne
    · rw [text_append]
      refine (h.outside_behind hcs).2 (balanced_text fun t ht => h.sound_post t ?_)
      rw [hbehind]
      exact List.mem_append_left _ ht
  · rw [h.outside_before hcs (by simp)]
    exact balanced_text fun t ht => h.sound t (List.mem_append_left _ ht)

/-- What stands outside before the quote or behind it is read. -/
theorem reads_of_outside (h : LoneQuote cs before post) (hcs : ¬Text.Balanced cs)
    (hs : s.IsPlace) (hstands : front ++ s.chars <+: cs) (houtside : Text.Outside cs front) :
    Reads cs front s := by
  by_cases hle : front.length ≤ (text before).length
  · exact reads_of_balanced hs ((h.outside_before hcs hle).1 houtside) hstands
  · have hprefix : text before ++ ['\''] <+: front := by
      have hlone : text before ++ ['\''] <+: cs :=
        ⟨post, by rw [h.eq_text, List.append_assoc, List.singleton_append]⟩
      have hfront : front <+: cs := (List.prefix_append front _).trans hstands
      exact List.prefix_of_prefix_length_le hlone hfront (by simp; omega)
    obtain ⟨rest, rfl⟩ := hprefix
    have hrest : rest ++ s.chars <+: post := by
      rw [h.eq_text, List.append_assoc, List.append_assoc, List.prefix_append_right_inj] at hstands
      exact (List.cons_prefix_cons.1 hstands).2
    rw [List.append_assoc, List.singleton_append] at houtside ⊢
    have hreads := reads_of_balanced hs ((h.outside_behind hcs).1 houtside) hrest
    have hscan : scan cs = (before ++ [.char '\'']) ++ scan post := by
      rw [h.scan_eq, List.append_assoc, List.singleton_append]
    have hall := hreads.behind hscan
    rwa [text_append, List.append_assoc] at hall

end LoneQuote

/-- **Markers and tables are read where the parity of the quotes tells the outside.** -/
theorem reads_iff (hs : s.IsPlace) (cs front : List Char) :
    Reads cs front s ↔ front ++ s.chars <+: cs ∧ Text.Outside cs front := by
  have hne : s ≠ .char '\'' := fun h => by
    rw [h] at hs
    exact hs
  by_cases hcs : Text.Balanced cs
  · -- all segments are sound, so what stands before one of them is balanced
    rw [Text.Outside, if_pos hcs]
    refine ⟨fun h => ⟨h.stands, ?_⟩, fun h => reads_of_balanced hs h.2 h.1⟩
    obtain ⟨before, after, hscan, rfl⟩ := h
    have hsound := sound_scan (Text.balanced_iff.1 hcs)
    rw [hscan] at hsound
    exact balanced_text fun t ht => hsound t (List.mem_append_left _ ht)
  · obtain ⟨before, post, hlone⟩ := exists_loneQuote hcs
    exact ⟨fun h => ⟨h.stands, hlone.outside_of_reads hcs hne h⟩,
      fun h => hlone.reads_of_outside hcs hs h.1 h.2⟩

end Fragment

end SelectSql
