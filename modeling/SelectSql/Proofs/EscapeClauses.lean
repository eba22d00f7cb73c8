import SelectSql.Proofs.Doc.Clauses
import SelectSql.Proofs.Escapes
import SelectSql.Proofs.Sides

/-!
# SelectSql.Proofs.EscapeClauses

The literal that a pattern match ends with. It names the escape character, and what is written
behind a match is only read as it is meant if this literal ends where it is written to end.

Design points:

* **An engine has words of its own around the two sides of a match** (`LikeFrame`), and no quote
  among them. So the literals of a match are those of its pattern and the one at its end.
* **What the scanner reads behind a match does not depend on the match**
  (`Dialect.EndsInEscape.of_front`): a blank stands in front of the last literal, and what is
  balanced up to there is read by itself.
* **MySQL writes the escape character between two quotes as it is**, unless it is the backslash.
  A quote between two quotes is no literal of one character.

Main statement: a match ends with the literal of its escape character exactly unless a quote
escapes in MySQL (`Dialect.endsInEscape_like_iff`).
-/

namespace SelectSql

/-! ## The words of the engines -/

/-- What stands around the column and the pattern of a match. -/
structure LikeFrame where
  /-- What stands in front of the column. -/
  before : String
  /-- What stands behind the column. -/
  behind : String
  /-- The operator. -/
  word : String
  /-- What stands in front of the pattern. -/
  opening : String
  /-- What stands behind the pattern. -/
  closing : String

namespace LikeFrame

/-- The words in order. -/
def words (f : LikeFrame) : List String :=
  [f.before, f.behind, f.word, f.opening, f.closing]

/-- What stands in front of the pattern. -/
def front (f : LikeFrame) (column : String) (negated : Bool) : String :=
  f.before ++ column ++ f.behind ++ (if negated then " NOT " else " ") ++ f.word ++ " " ++ f.opening

/-- The match up to its escape clause. -/
def text (f : LikeFrame) (column pattern : String) (negated : Bool) : String :=
  f.front column negated ++ pattern ++ f.closing

end LikeFrame

namespace Dialect

/-- The words of an engine around the sides of a match. -/
def likeFrame (d : Dialect) (o : LikeOptions) : LikeFrame :=
  match d with
  | .generic | .sqlite =>
    if o.caseSensitive then ⟨"", "", "LIKE", "", ""⟩ else ⟨"LOWER(", ")", "LIKE", "LOWER(", ")"⟩
  | .mySql => ⟨"", "", "LIKE", "", " COLLATE " ++ mySqlCollation o⟩
  | .postgres =>
    let word := if o.caseSensitive then "LIKE" else "ILIKE"
    if o.accentSensitive then ⟨"", "", word, "", ""⟩ else ⟨"unaccent(", ")", word, "unaccent(", ")"⟩
  | .sqlServer => ⟨"", " COLLATE " ++ sqlServerCollation o, "LIKE", "", ""⟩

theorem like_eq (d : Dialect) (column pattern : String) (o : LikeOptions) (negated : Bool) :
    d.like column pattern o negated =
      (d.likeFrame o).text column pattern negated ++ " ESCAPE " ++ d.escapeLiteral o.escape := by
  rw [← String.toList_inj]
  rcases o with ⟨caseSensitive, accentSensitive, escape⟩
  cases d <;> cases caseSensitive <;> cases accentSensitive <;> cases negated <;>
    simp [like, likeFrame, LikeFrame.text, LikeFrame.front, escapeClause, escapeLiteral,
      mySqlCollation, sqlServerCollation, toString]

theorem word_likeFrame (d : Dialect) (o : LikeOptions) :
    (d.likeFrame o).word = "LIKE" ∨ (d.likeFrame o).word = "ILIKE" := by
  rcases o with ⟨caseSensitive, accentSensitive, escape⟩
  cases d <;> cases caseSensitive <;> cases accentSensitive <;> simp [likeFrame]

/-- The words of an engine have no quote. -/
theorem not_mem_words_likeFrame (d : Dialect) (o : LikeOptions) :
    ∀ s ∈ (d.likeFrame o).words, '\'' ∉ s.toList := by
  rcases o with ⟨caseSensitive, accentSensitive, escape⟩
  cases d <;> cases caseSensitive <;> cases accentSensitive <;>
    simp [likeFrame, LikeFrame.words, mySqlCollation, sqlServerCollation]

end Dialect

namespace LikeFrame

variable {f : LikeFrame} {column : String}

theorem not_mem_front (hf : ∀ s ∈ f.words, '\'' ∉ s.toList) (hcolumn : '\'' ∉ column.toList)
    (negated : Bool) : '\'' ∉ (f.front column negated).toList := by
  have hnot : '\'' ∉ (if negated then " NOT " else " ").toList := by
    cases negated <;> decide
  simp only [words, List.forall_mem_cons] at hf
  simp [front, hf, hcolumn, hnot]

theorem not_mem_closing (hf : ∀ s ∈ f.words, '\'' ∉ s.toList) : '\'' ∉ f.closing.toList :=
  hf _ (by simp [words])

end LikeFrame

/-! ## Literals among segments -/

namespace Fragment

/-- A character other than the quote begins no literal. -/
theorem literals_scan_cons {c : Char} (h : c ≠ '\'') (cs : List Char) :
    literals (scan (c :: cs)) = literals (scan cs) := by
  rcases scan_cases h cs with ⟨s, hs, hscan⟩ | ⟨name, rest, -, -, hscan, hrest⟩
  · rw [hscan]
    rcases hs with ⟨rfl, -⟩ | rfl <;> rfl
  · -- the characters of a name are no literals either
    rw [hscan, hrest]
    simp [literals]

theorem literals_scan_append {word : List Char} (h : '\'' ∉ word) (cs : List Char) :
    literals (scan (word ++ cs)) = literals (scan cs) := by
  induction word with
  | nil => rfl
  | cons c word ih =>
      have hc : c ≠ '\'' := fun e => h (by simp [e])
      rw [List.cons_append, literals_scan_cons hc, ih fun e => h (by simp [e])]

theorem literals_scan_of_not_mem {word : List Char} (h : '\'' ∉ word) :
    literals (scan word) = [] := by
  have happend := literals_scan_append h []
  rwa [List.append_nil, scan_nil] at happend

end Fragment

/-! ## The literal at the end -/

namespace Dialect

open Fragment (scan literals)

/-- The content of the literal at the beginning of a text, as an engine reads it, and the text
behind it. -/
def literal? (d : Dialect) (cs : List Char) : Option (List Char × List Char) :=
  match d, cs with
  | .mySql, cs => Text.Escaped.literal? cs
  | _, '\'' :: cs => Text.Quoted.body? cs
  | _, _ => none

/-- A text that matches with a pattern ends with the literal of an escape character. -/
structure EndsInEscape (d : Dialect) (pattern : List Char) (escape : Char) (text : List Char) :
    Prop where
  /-- All literals are closed. -/
  balanced : Text.Balanced text
  /-- The last literal is the only one that the pattern does not have, and the engine reads the
  escape character in it. -/
  last : ∃ content, (scan text).getLast? = some (.literal content) ∧
    literals (scan text) = literals (scan pattern) ++ [content] ∧
    d.literal? (Text.Quoted.encode content) = some ([escape], [])
  /-- What stands behind the text is read as if it stood alone. -/
  apart : ∀ before rest, Text.Balanced before → rest.head? ≠ some '\'' →
    scan (before ++ text ++ rest) = scan (before ++ text) ++ scan rest

/-- The literal of an escape character has a content, and the engine reads the character in it. -/
theorem exists_escapeLiteral (d : Dialect) {escape : Char} (h : ¬(d = .mySql ∧ escape = '\'')) :
    ∃ content, (d.escapeLiteral escape).toList = Text.Quoted.encode content ∧
      d.literal? (Text.Quoted.encode content) = some ([escape], []) := by
  cases d with
  | mySql =>
      have hescape : escape ≠ '\'' := fun e => h ⟨rfl, e⟩
      rw [escapeLiteral, mySqlEscape]
      split
      · next hback =>
        subst hback
        exact ⟨['\\', '\\'], by decide, by decide⟩
      · next hback =>
        refine ⟨[escape], ?_, ?_⟩
        · rw [String.toList_ofList]
          simp [Text.Quoted.encode, Text.Quoted.double, hescape]
        · have hclose : Text.Escaped.body? ['\''] = some ([], []) :=
            Text.Escaped.body?_quote (by simp)
          simp [literal?, Text.Quoted.encode, Text.Quoted.double, Text.Escaped.literal?, hescape,
            Text.Escaped.body?_plain hescape hback, hclose]
  | _ =>
      refine ⟨[escape], by simp [escapeLiteral], ?_⟩
      exact Text.Quoted.body?_double_append [escape] (by simp)

/-- A literal behind a blank ends a text, if what stands in front of the blank is balanced. -/
theorem EndsInEscape.of_front {d : Dialect} {front pattern content : List Char} {escape : Char}
    (hfront : Text.Balanced front) (hliterals : literals (scan front) = literals (scan pattern))
    (hread : d.literal? (Text.Quoted.encode content) = some ([escape], [])) :
    d.EndsInEscape pattern escape (front ++ ' ' :: Text.Quoted.encode content) := by
  have hscan : ∀ before rest, Text.Balanced before → rest.head? ≠ some '\'' →
      scan (before ++ (front ++ ' ' :: Text.Quoted.encode content) ++ rest) =
        scan (before ++ front) ++ .char ' ' :: .literal content :: scan rest := by
    intro before rest hbefore hrest
    have hall : Text.Balanced (before ++ front) := (Text.balanced_append hbefore front).2 hfront
    have htext : before ++ (front ++ ' ' :: Text.Quoted.encode content) ++ rest =
        (before ++ front) ++ ' ' :: (Text.Quoted.encode content ++ rest) := by
      simp
    have hblank : scan (' ' :: (Text.Quoted.encode content ++ rest)) =
        .char ' ' :: .literal content :: scan rest := by
      rw [Fragment.scan_plain (by decide) (by decide), Fragment.scan_encode content hrest]
      rfl
    rw [htext, Fragment.scan_append hall (by simp)
      (fun begun => Text.closesName_blank (by decide) begun _), hblank]
  have hself := hscan [] [] rfl (by simp)
  simp only [List.nil_append, List.append_nil, Fragment.scan_nil] at hself
  constructor
  · rw [Text.balanced_append hfront, Text.balanced_iff]
    exact Text.insideAfter_encode content
  · refine ⟨content, by rw [hself, List.getLast?_append]; rfl, ?_, hread⟩
    rw [hself, ← hliterals]
    simp [literals]
  · intro before rest hbefore hrest
    have hend := hscan before [] hbefore (by simp)
    simp only [List.append_nil, Fragment.scan_nil] at hend
    rw [hscan before rest hbefore hrest, hend, List.append_assoc]
    rfl

/-- Where the pattern stands between words without a quote, the text is balanced and has the
literals of the pattern. -/
theorem front_of_pattern {before behind : List Char} (hbefore : '\'' ∉ before)
    (hbehind : '\'' ∉ behind) {d : Dialect} {pattern : String}
    (h : (∃ i, pattern = d.placeholder i) ∨ ∃ s, pattern = Text.Quoted.quote s) :
    Text.Balanced (before ++ pattern.toList ++ behind) ∧
      literals (scan (before ++ pattern.toList ++ behind)) = literals (scan pattern.toList) := by
  rw [Text.balanced_iff, Text.insideAfter_append, Text.insideAfter_append,
    Text.insideAfter_of_not_mem hbefore, Text.insideAfter_of_not_mem hbehind, List.append_assoc,
    Fragment.literals_scan_append hbefore]
  rcases h with ⟨i, rfl⟩ | ⟨s, rfl⟩
  · have hplain := (SlotWord.placeholder d i).not_mem_quote
    rw [Text.insideAfter_of_not_mem hplain, Fragment.literals_scan_append hplain,
      Fragment.literals_scan_of_not_mem hplain, Fragment.literals_scan_of_not_mem hbehind]
    exact ⟨rfl, rfl⟩
  · have hhead : behind.head? ≠ some '\'' := fun hq => hbehind (List.mem_of_mem_head? hq)
    have hend : ([] : List Char).head? ≠ some '\'' := by simp
    have hself := Fragment.scan_encode s.toList hend
    rw [List.append_nil] at hself
    rw [Text.Quoted.toList_quote, Text.insideAfter_encode, Fragment.scan_encode _ hhead, hself]
    refine ⟨rfl, ?_⟩
    have hnone := Fragment.literals_scan_of_not_mem hbehind
    simp only [literals] at hnone
    simp [literals, hnone]

/-- **A match ends with the literal of its escape character exactly unless a quote escapes in
MySQL.** There the literal stays open, and what stands behind the match is read on the wrong side
of the quotes. -/
theorem endsInEscape_like_iff {d : Dialect} {column pattern : String}
    (hcolumn : '\'' ∉ column.toList)
    (hpattern : (∃ i, pattern = d.placeholder i) ∨ ∃ s, pattern = Text.Quoted.quote s)
    (o : LikeOptions) (negated : Bool) :
    d.EndsInEscape pattern.toList o.escape (d.like column pattern o negated).toList ↔
      ¬(d = .mySql ∧ o.escape = '\'') := by
  have hwords := d.not_mem_words_likeFrame o
  have hescape : '\'' ∉ " ESCAPE".toList := by decide
  obtain ⟨hbalanced, hliterals⟩ := front_of_pattern
    (LikeFrame.not_mem_front hwords hcolumn negated)
    (List.mem_append.not.2 (not_or.2 ⟨LikeFrame.not_mem_closing hwords, hescape⟩)) hpattern
  have htext : (d.like column pattern o negated).toList =
      ((d.likeFrame o).front column negated).toList ++ pattern.toList ++
        ((d.likeFrame o).closing.toList ++ " ESCAPE".toList) ++
          ' ' :: (d.escapeLiteral o.escape).toList := by
    simp [like_eq, LikeFrame.text]
  rw [htext]
  constructor
  · rintro h ⟨rfl, hquote⟩
    have hodd := h.balanced
    rw [Text.balanced_append hbalanced, Text.balanced_iff, hquote] at hodd
    exact absurd hodd (by decide)
  · intro h
    obtain ⟨content, hcontent, hread⟩ := d.exists_escapeLiteral h
    rw [hcontent]
    exact EndsInEscape.of_front hbalanced hliterals hread

theorem endsInEscape_like_iff_backslash :
    '\'' ∉ "name".toList ∧
      ((∃ i, "?" = Dialect.mySql.placeholder i) ∨ ∃ s, "?" = Text.Quoted.quote s) ∧
      Dialect.mySql.EndsInEscape "?".toList '\\' (Dialect.mySql.like "name" "?" {} true).toList :=
  have hcolumn : '\'' ∉ "name".toList := by decide
  have hpattern : (∃ i, "?" = Dialect.mySql.placeholder i) ∨ ∃ s, "?" = Text.Quoted.quote s :=
    .inl ⟨1, rfl⟩
  ⟨hcolumn, hpattern, (endsInEscape_like_iff hcolumn hpattern {} true).2 (by decide)⟩

/-- Escaping with a quote, MySQL is given three quotes, and they are no literal. -/
theorem endsInEscape_like_quote :
    ¬ ∀ (d : Dialect) (column pattern : String) (o : LikeOptions) (negated : Bool),
      '\'' ∉ column.toList →
      ((∃ i, pattern = d.placeholder i) ∨ ∃ s, pattern = Text.Quoted.quote s) →
      d.EndsInEscape pattern.toList o.escape (d.like column pattern o negated).toList := by
  intro h
  have hbalanced := (h .mySql "a" "?" { escape := '\'' } false (by decide) (.inl ⟨1, rfl⟩)).balanced
  exact absurd hbalanced (by decide)

end Dialect

end SelectSql
