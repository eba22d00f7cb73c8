import SelectSql.Proofs.Tokens
import SelectSql.Proofs.Doc.Statement
import Mathlib.Data.List.Basic

/-!
# SelectSql.Proofs.Keywords

Whether a statement has the word ILIKE, which only one engine knows.

Design points:

* **Words end at signs.** A word is a longest run of name characters, inside a literal as well
  as outside. Where a character of no name stands, the words of a text are those in front of it
  and those behind it; everything about words follows from this one equation
  (`Text.words_append_cons`).
* **Words do not grow together.** The writer puts a sign wherever it puts texts together
  (`Doc.Opens`, `Doc.Closes`), and collapsing leaves a space between words
  (`Fragment.hasIlike_squeeze`).
* **A placeholder does not make the word** out of what stands around it
  (`Leaf.hasIlike_render`).

Main statement: a tree has the word exactly if one of its own words is it, provided the caller
does not say it (`Doc.Says`, with a rule for each way of putting trees together). Nothing is
asked of the quotes of the caller.
-/

namespace SelectSql

/-! ## Words -/

namespace Text

/-- The words of a text: its longest runs of characters of names. -/
def words (cs : List Char) : List (List Char) :=
  cs.splitOnP fun c => !isNameChar c

/-- Whether a word is ILIKE, in upper or lower case. -/
def isIlike (w : List Char) : Bool :=
  w.map Char.toUpper = "ILIKE".toList

/-- Whether a text has the word ILIKE. -/
def hasIlike (cs : List Char) : Bool :=
  (words cs).any isIlike

/-- Whether a text has the word ILIKE outside its literals. -/
def hasBareIlike (cs : List Char) : Bool :=
  (lex false cs).any (Token.isKeyword "ILIKE")

/-- A text does not begin inside a word. -/
def startsApart (cs : List Char) : Bool :=
  cs.head?.all fun c => !isNameChar c

/-- A text begins with a character of no word. -/
def startsWithSign (cs : List Char) : Bool :=
  cs.head?.any fun c => !isNameChar c

/-- A text does not end inside a word. -/
def endsApart (cs : List Char) : Bool :=
  cs.getLast?.all fun c => !isNameChar c

/-- **Words end at signs.** -/
theorem words_append_cons {c : Char} (h : isNameChar c = false) (xs ys : List Char) :
    words (xs ++ c :: ys) = words xs ++ words ys :=
  List.splitOnP_append_cons xs ys (by rw [h]; rfl)

theorem words_sign {c : Char} (h : isNameChar c = false) (cs : List Char) :
    words (c :: cs) = [] :: words cs :=
  words_append_cons h [] cs

theorem exists_words (cs : List Char) : ∃ w ws, words cs = w :: ws :=
  List.exists_cons_of_ne_nil (List.splitOnP_ne_nil (fun c => !isNameChar c) cs)

/-- A character of a name goes on with the first word. -/
theorem words_name {c : Char} (h : isNameChar c = true) {w cs : List Char}
    {ws : List (List Char)} (hcs : words cs = w :: ws) : words (c :: cs) = (c :: w) :: ws := by
  rw [words, List.splitOnP_cons_eq_if_modifyHead, h]
  rw [words] at hcs
  rw [hcs]
  rfl

theorem length_le_of_mem_words {w cs : List Char} (h : w ∈ words cs) :
    w.length ≤ cs.length := by
  induction cs generalizing w with
  | nil =>
      obtain rfl : w = [] := List.mem_singleton.1 h
      exact Nat.le_refl 0
  | cons c cs ih =>
      cases hc : isNameChar c with
      | false =>
          rw [words_sign hc] at h
          rcases List.mem_cons.1 h with rfl | h
          · exact Nat.zero_le _
          · exact Nat.le_succ_of_le (ih h)
      | true =>
          obtain ⟨v, ws, hcs⟩ := exists_words cs
          rw [hcs] at ih
          rw [words_name hc hcs] at h
          rcases List.mem_cons.1 h with rfl | h
          · exact Nat.succ_le_succ (ih List.mem_cons_self)
          · exact Nat.le_succ_of_le (ih (List.mem_cons_of_mem v h))

/-! ## The word in texts -/

@[simp] theorem hasIlike_nil : hasIlike [] = false := rfl

theorem hasIlike_append_cons {c : Char} (h : isNameChar c = false) (xs ys : List Char) :
    hasIlike (xs ++ c :: ys) = (hasIlike xs || hasIlike ys) := by
  rw [hasIlike, words_append_cons h, List.any_append]
  rfl

theorem hasIlike_sign {c : Char} (h : isNameChar c = false) (cs : List Char) :
    hasIlike (c :: cs) = hasIlike cs :=
  hasIlike_append_cons h [] cs

/-- Two texts have the word if one of them has it, unless a word goes on from one into the
other. -/
theorem hasIlike_append {xs ys : List Char} (h : endsApart xs = true ∨ startsApart ys = true) :
    hasIlike (xs ++ ys) = (hasIlike xs || hasIlike ys) := by
  rcases h with h | h
  · rcases List.eq_nil_or_concat xs with rfl | ⟨front, c, rfl⟩
    · rfl
    · have hc : isNameChar c = false := by simpa [endsApart] using h
      rw [List.concat_eq_append, List.append_assoc, List.singleton_append,
        hasIlike_append_cons hc, hasIlike_append_cons hc, hasIlike_nil, Bool.or_false]
  · cases ys with
    | nil => rw [List.append_nil]; exact (Bool.or_false _).symm
    | cons c ys =>
        have hc : isNameChar c = false := by simpa [startsApart] using h
        rw [hasIlike_append_cons hc, hasIlike_sign hc]

/-- A short text. -/
theorem hasIlike_of_length {cs : List Char} (h : cs.length < 5) : hasIlike cs = false := by
  rw [hasIlike, List.any_eq_false]
  intro w hw hword
  have hlength : (w.map Char.toUpper).length = 5 := by
    rw [of_decide_eq_true hword]
    rfl
  rw [List.length_map] at hlength
  have hle := length_le_of_mem_words hw
  omega

/-- In front of a text, characters that are not in the word do not make it. -/
theorem hasIlike_append_of_forall {xs ys : List Char}
    (h : ∀ c ∈ xs, c.toUpper ∉ "ILIKE".toList) (hys : hasIlike ys = false) :
    hasIlike (xs ++ ys) = false := by
  induction xs with
  | nil => exact hys
  | cons c xs ih =>
      obtain ⟨hc, hxs⟩ := List.forall_mem_cons.1 h
      have hrest := ih hxs
      rw [List.cons_append]
      cases hname : isNameChar c with
      | false => rw [hasIlike_sign hname, hrest]
      | true =>
          obtain ⟨w, ws, hwords⟩ := exists_words (xs ++ ys)
          have hfirst : isIlike (c :: w) = false := by
            rw [isIlike, decide_eq_false_iff_not]
            intro hword
            exact hc (hword ▸ List.mem_cons_self)
          rw [hasIlike, hwords, List.any_cons, Bool.or_eq_false_iff] at hrest
          rw [hasIlike, words_name hname hwords, List.any_cons, hfirst, hrest.2]
          rfl

/-- Trimming keeps the words of a text. -/
theorem hasIlike_trimChars (cs : List Char) : hasIlike (trimChars cs) = hasIlike cs := by
  have hblank {c : Char} (h : isBlank c = true) : isNameChar c = false :=
    (isSign_of_isBlank h).not_name
  have hblanks {bs : List Char} (h : ∀ c ∈ bs, isBlank c = true) (ys : List Char) :
      hasIlike (bs ++ ys) = hasIlike ys := by
    induction bs with
    | nil => rfl
    | cons b bs ih =>
        obtain ⟨hb, hbs⟩ := List.forall_mem_cons.1 h
        rw [List.cons_append, hasIlike_sign (hblank hb), ih hbs]
  obtain ⟨front, back, heq, hfront, hback, -⟩ := exists_trimBy isBlank cs
  rw [← trimChars_eq_trimBy] at heq
  have hend : hasIlike back = false := by simpa using hblanks hback []
  have hapart : startsApart back = true := by
    cases back with
    | nil => rfl
    | cons b back => simpa [startsApart] using hblank (hback b List.mem_cons_self)
  conv_rhs => rw [heq]
  rw [List.append_assoc, hblanks hfront, hasIlike_append (.inr hapart), hend, Bool.or_false]

end Text

namespace Fragment

/-- Collapsing keeps the words of a text: where blanks are dropped, a space stands in front. -/
theorem hasIlike_squeeze (afterSpace : Bool) (front : List Char) (ss : List Segment)
    (h : afterSpace = true → front = []) :
    Text.hasIlike (front ++ squeeze afterSpace ss) =
      Text.hasIlike (front ++ ss.flatMap Segment.chars) := by
  induction ss generalizing afterSpace front with
  | nil => rfl
  | cons s ss ih =>
      have hgo (cs : List Char) : Text.hasIlike (front ++ (cs ++ squeeze false ss)) =
          Text.hasIlike (front ++ (cs ++ ss.flatMap Segment.chars)) := by
        rw [← List.append_assoc, ← List.append_assoc]
        exact ih false (front ++ cs) fun h => nomatch h
      have hspace : Text.isNameChar ' ' = false := by decide
      rw [List.flatMap_cons]
      cases s with
      | char c =>
          rw [squeeze, Segment.chars, List.singleton_append]
          split
          · next hb =>
            have hc := (isSign_of_isBlank hb).not_name
            have hrest := ih true [] fun _ => rfl
            rw [List.nil_append, List.nil_append] at hrest
            rw [Text.hasIlike_append_cons hc]
            split
            · next hafter =>
              obtain rfl := h hafter
              exact hrest
            · rw [Text.hasIlike_append_cons hspace, hrest]
          · exact hgo [c]
      | _ => exact hgo _

theorem hasIlike_collapseChars (cs : List Char) :
    Text.hasIlike (collapseChars cs) = Text.hasIlike cs := by
  have hsqueeze := hasIlike_squeeze false [] (scan cs) fun h => nomatch h
  rw [flatMap_chars_scan] at hsqueeze
  rw [collapseChars, Text.hasIlike_trimChars]
  exact hsqueeze

end Fragment

/-! ## The word outside literals -/

namespace Token

/-- The words among tokens. -/
def words (ts : List Token) : List (List Char) :=
  ts.filterMap fun
    | .word w => some w
    | _ => none

/-- The word in front of tokens, or nothing. -/
def firstWord : List Token → List Char
  | .word w :: _ => w
  | _ => []

/-- The words behind the one in front. -/
def laterWords : List Token → List (List Char)
  | .word _ :: ts => words ts
  | ts => words ts

theorem firstWord_consWord (c : Char) (ts : List Token) :
    firstWord (consWord c ts) = c :: firstWord ts := by
  match ts with
  | [] | .word w :: ts | .quoted d :: ts | .sign d :: ts => rfl

theorem laterWords_consWord (c : Char) (ts : List Token) :
    laterWords (consWord c ts) = laterWords ts := by
  match ts with
  | [] | .word w :: ts | .quoted d :: ts | .sign d :: ts => rfl

theorem mem_words_cases {w : List Char} {ts : List Token} (h : w ∈ words ts) :
    w = firstWord ts ∨ w ∈ laterWords ts := by
  match ts with
  | .word v :: ts => exact List.mem_cons.1 h
  | [] | .quoted d :: ts | .sign d :: ts => exact .inr h

end Token

namespace Text

/-- Inside a literal no word begins. -/
theorem laterWords_lex_true (cs : List Char) :
    Token.laterWords (lex true cs) = Token.words (lex true cs) := by
  cases cs <;> rfl

/-- The words outside the literals of a text are words of it; if the text begins outside, the
first one is the first one. -/
def FindsWords (inside : Bool) (cs : List Char) : Prop :=
  ∃ w ws, words cs = w :: ws ∧ (inside = false → Token.firstWord (lex inside cs) = w) ∧
    ∀ v ∈ Token.laterWords (lex inside cs), v ∈ ws

theorem FindsWords.mem_words {inside : Bool} {cs : List Char} (h : FindsWords inside cs) :
    ∀ v ∈ Token.words (lex inside cs), v ∈ words cs := by
  intro v hv
  obtain ⟨w, ws, hwords, hfirst, hlater⟩ := h
  rw [hwords]
  cases inside with
  | true =>
      rw [← laterWords_lex_true] at hv
      exact List.mem_cons_of_mem w (hlater v hv)
  | false =>
      rcases Token.mem_words_cases hv with rfl | hv
      · exact List.mem_cons.2 (.inl (hfirst rfl))
      · exact List.mem_cons_of_mem w (hlater v hv)

theorem findsWords (inside : Bool) (cs : List Char) : FindsWords inside cs := by
  induction cs generalizing inside with
  | nil => exact ⟨[], [], rfl, fun _ => rfl, by simp [Token.laterWords, Token.words]⟩
  | cons c cs ih =>
      rw [FindsWords, lex]
      cases hname : isNameChar c with
      | false =>
          have hwords := words_sign hname cs
          split
          · exact ⟨[], words cs, hwords, fun _ => rfl, (ih _).mem_words⟩
          · exact ⟨[], words cs, hwords, fun _ => rfl, (ih false).mem_words⟩
      | true =>
          have hne : c ≠ '\'' := fun h => by
            rw [h] at hname
            exact absurd hname (by decide)
          cases inside with
          | true =>
              -- the word goes on inside the literal
              obtain ⟨w, ws, hwords, -, hlater⟩ := ih true
              rw [laterWords_lex_true] at hlater
              rw [Bool.true_or, if_pos rfl, toggle_of_ne hne]
              exact ⟨c :: w, ws, words_name hname hwords, fun h => absurd h (by decide), hlater⟩
          | false =>
              obtain ⟨w, ws, hwords, hfirst, hlater⟩ := ih false
              rw [if_neg (by simpa using hne), if_pos rfl, Token.firstWord_consWord,
                Token.laterWords_consWord, hfirst rfl]
              exact ⟨c :: w, ws, words_name hname hwords, fun _ => rfl, hlater⟩

/-- A text that has the word outside its literals has the word. -/
theorem hasIlike_of_hasBareIlike {cs : List Char} (h : hasBareIlike cs = true) :
    hasIlike cs = true := by
  obtain ⟨t, ht, hkeyword⟩ := List.any_eq_true.1 h
  cases t with
  | word v =>
      have hv : v ∈ Token.words (lex false cs) := List.mem_filterMap.2 ⟨_, ht, rfl⟩
      exact List.any_eq_true.2 ⟨v, (findsWords false cs).mem_words v hv, hkeyword⟩
  | quoted c | sign c => exact absurd hkeyword Bool.false_ne_true

end Text

/-! ## What is asked of the caller -/

/-- The text of the caller in a leaf. -/
def Leaf.sql : Leaf → String
  | .text s => s
  | .table name => name
  | .fragment sql _ => sql
  | .value _ | .escape _ => ""

/-- The text of a leaf does not have the word. Values may have it. -/
def Leaf.Quiet (l : Leaf) : Prop :=
  Text.hasIlike l.sql.toList = false

instance (l : Leaf) : Decidable l.Quiet :=
  inferInstanceAs (Decidable (_ = _))

theorem Text.toUpper_of_mem_toDigits {n : Nat} {c : Char} (h : c ∈ Nat.toDigits 10 n) :
    c.toUpper ∉ "ILIKE".toList := by
  have hall : ∀ d ∈ Text.digits, d.toUpper ∉ "ILIKE".toList := by decide
  exact hall c (mem_digits_of_isDigit (Nat.isDigit_of_mem_toDigits (by decide) (by decide) h))

/-- A placeholder begins with a sign; a P and a number follow at most. -/
theorem Dialect.placeholder_cases (d : Dialect) (index : Nat) :
    ∃ c cs, (d.placeholder index).toList = c :: cs ∧ Text.isNameChar c = false ∧
      ∀ e ∈ cs, e.toUpper ∉ "ILIKE".toList := by
  have hdigits : ∀ e ∈ Nat.toDigits 10 index, e.toUpper ∉ "ILIKE".toList :=
    fun e he => Text.toUpper_of_mem_toDigits he
  rw [d.toList_placeholder]
  cases d with
  | postgres => exact ⟨'$', _, rfl, by decide, hdigits⟩
  | sqlServer => exact ⟨'@', _, rfl, by decide, List.forall_mem_cons.2 ⟨by decide, hdigits⟩⟩
  | generic | mySql | sqlite => exact ⟨'?', [], rfl, by decide, by simp⟩

/-- A placeholder does not make the word out of what stands around it. -/
theorem Rendering.hasIlike_placeholder (d : Dialect) (k : Nat) (v : Value) {xs ys : List Char}
    (hxs : Text.hasIlike xs = false) (hys : Text.hasIlike ys = false) :
    Text.hasIlike (xs ++ (slot ⟨d, .bound⟩ k v ++ ys)) = false := by
  obtain ⟨c, cs, hslot, hc, hcs⟩ := d.placeholder_cases (k + 1)
  rw [slot, hslot, List.cons_append, Text.hasIlike_append_cons hc, hxs,
    Text.hasIlike_append_of_forall hcs hys]
  rfl

/-- Filling the markers of a fragment does not make the word. -/
theorem Template.hasIlike_ofSegments (d : Dialect) (k : Nat) (front : List Char)
    {ss : List Segment} {vs : List Value}
    (h : Text.hasIlike (front ++ ss.flatMap Segment.chars) = false) :
    Text.hasIlike (front ++ render ⟨d, .bound⟩ k (ofSegments ss vs)) = false := by
  fun_induction ofSegments ss vs generalizing front k with
  | case1 vs => exact h
  | case2 ss v vs ih =>
      have hmarker : Text.isNameChar '?' = false := by decide
      rw [List.flatMap_cons, Segment.chars, List.singleton_append,
        Text.hasIlike_append_cons hmarker, Bool.or_eq_false_iff] at h
      exact Rendering.hasIlike_placeholder d k v h.1 (ih (k + 1) [] h.2)
  | case3 s ss vs hplain ih =>
      rw [List.flatMap_cons, ← List.append_assoc] at h
      rw [render_append, render_ofChars, ← List.append_assoc]
      exact ih _ (front ++ s.chars) h

/-- The literal of an escape character has at most two characters between its quotes. -/
theorem Dialect.length_escapeLiteral (d : Dialect) (c : Char) :
    (d.escapeLiteral c).toList.length < 5 := by
  have hquote : (Text.Quoted.quote (String.singleton c)).toList.length < 5 := by
    rw [Text.Quoted.toList_quote, Text.Quoted.encode, String.toList_singleton, Text.Quoted.double]
    split <;> simp [Text.Quoted.double]
  cases d with
  | mySql =>
      rw [escapeLiteral, mySqlEscape]
      split
      · decide
      · simp
  | _ => exact hquote

/-- The text of a quiet leaf does not have the word. -/
theorem Leaf.Quiet.hasIlike_render {l : Leaf} (h : l.Quiet) (d : Dialect) (k : Nat) :
    Text.hasIlike (Template.render ⟨d, .bound⟩ k (l.template d)) = false := by
  cases l with
  | text s =>
      rw [Leaf.template, Template.render_ofChars]
      exact h
  | table name =>
      have hopen : Text.isNameChar '\x7b' = false := by decide
      have hclose : Text.isNameChar '\x7d' = false := by decide
      have hname : Text.hasIlike name.toList = false := h
      rw [Leaf.template, Template.render_ofChars, Text.hasIlike_sign hopen,
        Text.hasIlike_append_cons hclose, hname]
      rfl
  | fragment sql params =>
      refine Template.hasIlike_ofSegments d k [] ?_
      rw [List.nil_append, Fragment.flatMap_chars_scan]
      exact h
  | value v =>
      exact Rendering.hasIlike_placeholder d k v Text.hasIlike_nil Text.hasIlike_nil
  | escape c =>
      rw [Leaf.template, Template.render_ofChars]
      exact Text.hasIlike_of_length (d.length_escapeLiteral c)

/-! ## Trees -/

namespace Doc

/-- A tree whose text does not begin inside a word. -/
def Opens (a : Doc) : Prop :=
  ∀ (r : Rendering) (k : Nat), Text.startsApart (a.text r k) = true

/-- A tree whose text does not end inside a word. -/
def Closes (a : Doc) : Prop :=
  ∀ (r : Rendering) (k : Nat), Text.endsApart (a.text r k) = true

/-- What a tree says if the caller does not say the word: whether its text has the word, for
every engine and behind any values. -/
def Says (a : Doc) (b : Bool) : Prop :=
  (∀ l ∈ a.leaves, l.Quiet) →
    ∀ (d : Dialect) (k : Nat), Text.hasIlike (a.text ⟨d, .bound⟩ k) = b

variable {a b : Doc} {x y : Bool}

theorem opens_word {s : String} {plain : s.toList.all isOwnChar = true}
    (hs : Text.startsApart s.toList = true) : (word s plain).Opens :=
  fun _ _ => hs

/-- What begins with a sign goes on as it likes. -/
theorem opens_word_append {s : String} {plain : s.toList.all isOwnChar = true}
    (hs : Text.startsWithSign s.toList = true) (a : Doc) : (word s plain ++ a).Opens := by
  intro r k
  rw [text_append, text_word]
  cases htext : s.toList with
  | nil =>
      rw [htext] at hs
      contradiction
  | cons c cs =>
      rw [htext] at hs
      exact hs

theorem Opens.append (ha : a.Opens) (hb : b.Opens) : (a ++ b).Opens := by
  intro r k
  have hfirst := ha r k
  rw [text_append]
  cases htext : a.text r k with
  | nil => exact hb r _
  | cons c text => rwa [htext] at hfirst

theorem opens_parens (a : Doc) : (parens a).Opens :=
  fun _ _ => rfl

/-- A word of the writer other than the word. -/
structure Silent (s : String) : Prop where
  plain : s.toList.all isOwnChar = true
  silent : Text.hasIlike s.toList = false

/-- Such a word that keeps apart from it what stands behind. -/
structure Leads (s : String) : Prop extends Silent s where
  last : Text.endsApart s.toList = true

/-- Such a word that keeps apart what stands around it. -/
structure Divides (s : String) : Prop extends Leads s where
  first : Text.startsWithSign s.toList = true

instance (s : String) : Decidable (Silent s) :=
  decidable_of_iff (s.toList.all isOwnChar = true ∧ Text.hasIlike s.toList = false)
    ⟨fun h => ⟨h.1, h.2⟩, fun h => ⟨h.plain, h.silent⟩⟩

instance (s : String) : Decidable (Leads s) :=
  decidable_of_iff (Silent s ∧ Text.endsApart s.toList = true)
    ⟨fun h => ⟨h.1, h.2⟩, fun h => ⟨h.toSilent, h.last⟩⟩

instance (s : String) : Decidable (Divides s) :=
  decidable_of_iff (Leads s ∧ Text.startsWithSign s.toList = true)
    ⟨fun h => ⟨h.1, h.2⟩, fun h => ⟨h.toLeads, h.first⟩⟩

theorem Divides.opens {s : String} (h : Divides s) (a : Doc) : (word s h.plain ++ a).Opens :=
  opens_word_append h.first a

theorem divides_space : Divides " " := by
  decide

namespace Says

theorem cast (h : a.Says x) (hxy : x = y) : a.Says y :=
  hxy ▸ h

theorem own {s : String} (h : s.toList.all isOwnChar = true) :
    (Doc.own s h).Says (Text.hasIlike s.toList) :=
  fun _ _ _ => rfl

theorem word (s : String) (h : Silent s) : (Doc.word s h.plain).Says false :=
  (own h.plain).cast h.silent

theorem leaf (l : Leaf) : (Doc.leaf l).Says false :=
  fun hl d k => (hl l List.mem_cons_self).hasIlike_render d k

theorem append (ha : a.Says x) (hb : b.Says y) (h : a.Closes ∨ b.Opens) :
    (a ++ b).Says (x || y) := by
  intro hl d k
  obtain ⟨hla, hlb⟩ := List.forall_mem_append.1 hl
  rw [text_append, Text.hasIlike_append (h.imp (fun hc => hc _ k) fun ho => ho _ _), ha hla, hb hlb]

/-- Behind a word that keeps what follows apart. -/
theorem behind (ha : a.Says x) (s : String) (h : Leads s) : (Doc.word s h.plain ++ a).Says x :=
  (word s h.toSilent).append ha (.inl fun _ _ => h.last)

/-- In front of a word that does not go on with what stands there. -/
theorem before (ha : a.Says x) (s : String) (h : Silent s)
    (hs : Text.startsApart s.toList = true) : (a ++ Doc.word s h.plain).Says x :=
  (ha.append (word s h) (.inr (opens_word hs))).cast (Bool.or_false x)

/-- On both sides of a word that keeps them apart. -/
theorem between (ha : a.Says x) (s : String) (hb : b.Says y) (h : Divides s) :
    (a ++ (Doc.word s h.plain ++ b)).Says (x || y) :=
  ha.append (hb.behind s h.toLeads) (.inr (h.opens b))

theorem parens (ha : a.Says x) : (Doc.parens a).Says x := by
  intro hl d k
  have hopen : Text.isNameChar '(' = false := by decide
  have hclose : Text.isNameChar ')' = false := by decide
  rw [text_parens, Text.hasIlike_sign hopen, Text.hasIlike_append_cons hclose, ha hl,
    Text.hasIlike_nil, Bool.or_false]

theorem collapsed (ha : a.Says x) : (Doc.collapsed a).Says x := by
  intro hl d k
  rw [text_collapsed, Fragment.hasIlike_collapseChars]
  exact ha hl d k

theorem headed (ha : a.Says x) (head : String) (h : Leads head) :
    (Doc.headed head h.plain a).Says x := by
  intro hl d k
  have htext := ha hl d k
  rw [text_headed, under]
  split
  · next hnil => rwa [List.isEmpty_iff.1 hnil] at htext
  · rw [Text.hasIlike_append (.inl h.last), h.silent, htext, Bool.false_or]

/-- An empty side is dropped, and it has no words. -/
theorem clause (ha : a.Says x) (hb : b.Says y) : (Doc.clause a b).Says (x || y) := by
  intro hl d k
  obtain ⟨hla, hlb⟩ := List.forall_mem_append.1 hl
  have hspace : Text.isNameChar ' ' = false := by decide
  have hfirst := ha hla d k
  have hrest := hb hlb d (k + a.values.length)
  rw [← Text.hasIlike_trimChars] at hfirst
  rw [text_clause, spaced]
  split
  · next hnil =>
    rw [List.isEmpty_iff.1 hnil, Text.hasIlike_nil] at hfirst
    rw [hrest, ← hfirst, Bool.false_or]
  · split
    · next hnil =>
      rw [List.isEmpty_iff.1 hnil, Text.hasIlike_nil] at hrest
      rw [hfirst, ← hrest, Bool.or_false]
    · rw [Text.hasIlike_append_cons hspace, hfirst, hrest]

end Says

/-- Whether one of several trees says the word. -/
inductive SaysAny : List Doc → Bool → Prop
  | nil : SaysAny [] false
  | cons {a : Doc} {as : List Doc} {x y : Bool} (ha : a.Says x) (has : SaysAny as y) :
      SaysAny (a :: as) (x || y)

variable {as bs : List Doc}

namespace SaysAny

theorem cast (h : SaysAny as x) (hxy : x = y) : SaysAny as y :=
  hxy ▸ h

theorem append (ha : SaysAny as x) (hb : SaysAny bs y) : SaysAny (as ++ bs) (x || y) := by
  induction ha with
  | nil => exact hb
  | cons h _ ih => exact (SaysAny.cons h ih).cast (Bool.or_assoc ..).symm

/-- A word of the writer among the trees. -/
theorem word (s : String) (h : Silent s) (has : SaysAny as x) :
    SaysAny (Doc.word s h.plain :: as) x :=
  cons (Says.word s h) has

/-- Trees that never say the word. -/
theorem of_forall (h : ∀ a ∈ as, a.Says false) : SaysAny as false := by
  induction as with
  | nil => exact nil
  | cons a as ih =>
      obtain ⟨ha, has⟩ := List.forall_mem_cons.1 h
      exact cons ha (ih has)

/-- Trees with a word between them that keeps them apart. -/
theorem sep (h : SaysAny as x) (s : String) (hs : Divides s) :
    (Doc.sep (Doc.word s hs.plain) as).Says x := by
  induction h with
  | nil => exact Says.word "" (by decide)
  | @cons a as x y ha has ih =>
      cases as with
      | nil =>
          cases has
          exact ha.cast (Bool.or_false x).symm
      | cons b as => exact ha.between s ih hs

theorem spaces (h : SaysAny as x) : (Doc.spaces as).Says x :=
  h.sep " " divides_space

theorem commas (h : SaysAny as x) : (Doc.sep comma as).Says x :=
  h.sep ", " (by decide)

theorem clauses (h : SaysAny as x) : (Doc.clauses as).Says x := by
  induction h with
  | nil => exact Says.word "" (by decide)
  | cons ha _ ih => exact ha.clause ih

/-- Names separated by commas. -/
theorem names (texts : List String) : SaysAny (texts.map name) false := by
  refine of_forall fun a ha => ?_
  obtain ⟨s, -, rfl⟩ := List.mem_map.1 ha
  exact Says.leaf _

end SaysAny

end Doc

end SelectSql
