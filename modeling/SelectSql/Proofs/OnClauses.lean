import SelectSql.Proofs.JoinConditions
import SelectSql.Proofs.Nesting
import SelectSql.Proofs.Sequences

/-!
# SelectSql.Proofs.OnClauses

The text of a condition of a join is read as the same condition, and stands in the ON clause
of a statement as it is.

Design points:

* **A condition may be laid out anew** (`JoinCondition.Layout.Fits.laidOut`). With spacing
  before the operator the left side ends, whatever spelling follows; so the text of a condition
  is one of its layouts.
* **Collapsing leaves the text of a condition alone** (`Fragment.Kept`). It has single spaces
  between its parts, and other blanks inside a literal only.
* **What stands before the ON clause must be balanced.** Behind a quote that opens no literal
  of its own the blanks inside a literal would be collapsed.

Main statement: `JoinCondition.exists_onClause`.
-/

namespace SelectSql

/-! ## Connectives -/

/-- A letter is one in either case. -/
theorem Text.isReferenceChar_of_toLower {c : Char} (h : isReferenceChar c.toLower = true) :
    isReferenceChar c = true := by
  delta Char.toLower at h
  split at h
  · next hupper =>
    have hcode : c.toNat < 0x80 := by
      have hle := UInt32.le_iff_toNat_le.1 hupper.2
      have hZ : 'Z'.val.toNat = 90 := by decide
      rw [Char.toNat]
      omega
    have hletter : c.isUpper = true := decide_eq_true hupper
    have halphanum : c.isAlphanum = (c.isUpper || c.isLower || c.isDigit) := rfl
    rw [isReferenceChar, isAlphanumeric_of_lt hcode, isAsciiAlphanumeric, halphanum, hletter]
    rfl
  · exact h

/-- A connective has letters only. -/
theorem Connective.isReferenceChar_of_ofToken? {token : String} {word : Connective}
    (h : ofToken? token = some word) {c : Char} (hc : c ∈ Text.trimChars token.toList) :
    Text.isReferenceChar c = true := by
  have hlower : c.toLower ∈ (Text.trimChars token.toList).map Char.toLower :=
    List.mem_map_of_mem hc
  refine Text.isReferenceChar_of_toLower ?_
  have hand : ∀ l ∈ ['a', 'n', 'd'], Text.isReferenceChar l = true := by decide
  have hor : ∀ l ∈ ['o', 'r'], Text.isReferenceChar l = true := by decide
  rw [ofToken?] at h
  split at h
  · next heq => exact hand _ (heq ▸ hlower)
  · next heq => exact hor _ (heq ▸ hlower)
  · contradiction

/-! ## Texts that are read again -/

namespace JoinCondition

variable {c : JoinCondition} {s : String}

/-- The layout of the text of a condition. -/
def ownLayout (c : JoinCondition) : Layout :=
  ⟨[' '], c.op.symbol.toList, [' ']⟩

theorem toList_text (c : JoinCondition) : c.text.toList = c.written c.ownLayout := by
  simp [text, written, ownLayout, toString]

/-- With spacing behind its left side a condition may be spelled in any way. -/
theorem Layout.Fits.laidOut {l l' : Layout} (h : l.Fits c) (hne : l'.before ≠ [])
    (hbefore : ∀ x ∈ l'.before, Text.isSpacing x = true) (hsign : c.op.Spells l'.sign)
    (hbehind : ∀ x ∈ l'.behind, Text.isSpacing x = true) : l'.Fits c where
  left_ne := h.left_ne
  left := by
    have hrun : Text.Run Text.isReferenceChar c.left.toList
        (l'.before ++ (l'.sign ++ l'.behind ++ c.right.toList)) := by
      refine (Text.Run.append_iff hne).2 ⟨(h.left_run []).all, fun x hx => ?_⟩
      exact Text.isReferenceChar_of_isSpacing (hbefore x (List.mem_of_mem_head? hx))
    simpa [written] using hrun.takeWhile_append
  before := hbefore
  sign := hsign
  behind := hbehind
  right := h.right

theorem Layout.Fits.ownLayout {l : Layout} (h : l.Fits c) : c.ownLayout.Fits c :=
  h.laidOut (List.cons_ne_nil _ _) (by simp [JoinCondition.ownLayout, Text.isSpacing])
    c.op.spells_symbol (by simp [JoinCondition.ownLayout, Text.isSpacing])

/-- **The text of a condition that was read is read as that condition.** -/
theorem ofText_text (h : ofText s = .ok c) : ofText c.text = .ok c := by
  obtain ⟨l, hfits, -⟩ := ofText_eq_ok_iff.1 h
  have htrim : (Text.trim c.text).toList = c.written c.ownLayout := by
    rw [Text.toList_trim, toList_text, Text.trimChars_eq_trimBy,
      Text.trimBy_eq_self hfits.ownLayout.trimmed]
  exact ofText_eq_ok_iff.2 ⟨c.ownLayout, hfits.ownLayout, htrim⟩

end JoinCondition

/-! ## Texts that are kept -/

namespace Fragment

/-- A balanced text that collapsing leaves as it is, whatever follows it, and that does not end
with a blank. -/
structure Kept (cs : List Char) : Prop where
  squeezed : ∀ rest, squeezeText false false (cs ++ rest) = cs ++ squeezeText false false rest
  closed : Text.insideAfter false cs = false
  last : ∀ c ∈ cs.getLast?, Text.isBlank c = false

namespace Kept

variable {xs ys : List Char}

theorem nil : Kept [] := ⟨fun _ => rfl, rfl, by simp⟩

theorem append (hx : Kept xs) (hy : Kept ys) : Kept (xs ++ ys) where
  squeezed rest := by
    rw [List.append_assoc, hx.squeezed, hy.squeezed, List.append_assoc]
  closed := by rw [Text.insideAfter_append, hx.closed, hy.closed]
  last c hc := by
    rw [List.getLast?_append, Option.mem_def, Option.or_eq_some_iff] at hc
    rcases hc with hc | ⟨-, hc⟩
    · exact hy.last c hc
    · exact hx.last c hc

/-- A word without blanks and quotes. -/
theorem word (h : ∀ c ∈ xs, c ≠ '\'' ∧ Text.isBlank c = false) : Kept xs where
  squeezed rest := by
    by_cases hne : xs = []
    · rw [hne, List.nil_append, List.nil_append]
    · exact squeezeText_solid hne h false rest
  closed := Text.insideAfter_of_not_mem (fun hquote => (h _ hquote).1 rfl) false
  last c hc := (h c (List.mem_of_mem_getLast? hc)).2

theorem literal (content : List Char) : Kept (Text.Quoted.encode content) where
  squeezed rest := squeezeText_encode content false rest
  closed := Text.insideAfter_encode content
  last c hc := by
    rw [Text.Quoted.getLast?_encode] at hc
    obtain rfl := Option.some.inj hc
    decide

/-- One space in front of a text that does not begin with another. -/
theorem spaced (h : Kept xs) (hne : xs ≠ []) (hfirst : ∀ c ∈ xs.head?, Text.isBlank c = false) :
    Kept (' ' :: xs) := by
  have hspace : Text.isBlank ' ' = true := by decide
  obtain ⟨c, cs, rfl⟩ := List.exists_cons_of_ne_nil hne
  refine ⟨fun rest => ?_, h.closed, fun d hd => h.last d (by simpa using hd)⟩
  have hsqueezed := h.squeezed rest
  rw [List.cons_append, squeezeText_of_not_blank (hfirst c rfl)] at hsqueezed
  rw [List.cons_append, squeezeText_blank hspace, if_neg Bool.false_ne_true, List.cons_append,
    squeezeText_of_not_blank (hfirst c rfl), hsqueezed]
  rfl

theorem flatMap {α : Type} {f : α → List Char} {l : List α} (h : ∀ a ∈ l, Kept (f a)) :
    Kept (l.flatMap f) := by
  induction l with
  | nil => exact .nil
  | cons a l ih =>
      obtain ⟨ha, hl⟩ := List.forall_mem_cons.1 h
      rw [List.flatMap_cons]
      exact ha.append (ih hl)

/-- **What is kept stands in a collapsed text as it is**, behind a balanced text. -/
theorem infix_collapseChars {c : Char} {cs : List Char} (h : Kept (c :: cs)) (hq : c ≠ '\'')
    (hc : Text.isBlank c = false) {head : List Char}
    (hhead : Text.insideAfter false head = false) :
    c :: cs <:+: collapseChars (head ++ c :: cs) := by
  have hclosed : Text.insideAfter false cs = false := by
    have hcs := h.closed
    rwa [Text.insideAfter_cons, Text.toggle_of_ne hq] at hcs
  have hcs : squeeze false (scan cs) = cs := by
    have hsqueezed := h.squeezed []
    rw [List.append_nil, squeezeText_of_not_blank hc, Text.toggle_of_ne hq,
      squeezeText_nil, List.append_nil] at hsqueezed
    rw [squeeze_eq (sound_scan hclosed), flatMap_chars_scan]
    exact (List.cons.inj hsqueezed).2
  have htrim : Text.Trimmed Text.isBlank (c :: cs) := ⟨by simpa using hc, h.last⟩
  refine htrim.infix_trimBy ?_
  rw [squeeze_scan_append hhead hq hc, hcs]
  exact (List.suffix_append _ _).isInfix

end Kept

end Fragment

/-! ## ON clauses -/

namespace JoinCondition

/-- An operand is kept, with a space before it. -/
theorem IsOperand.kept {right : List Char} (h : IsOperand right) :
    Fragment.Kept (' ' :: right) := by
  have hoperand {x : Char} (hx : Text.isOperandChar x = true) :
      x ≠ '\'' ∧ Text.isBlank x = false := by
    refine ⟨?_, Text.isBlank_of_isOperandChar hx⟩
    rintro rfl
    exact absurd hx (by decide)
  obtain ⟨x, xs, heq, hx⟩ := h.exists_head
  have hfirst : ∀ y ∈ right.head?, Text.isBlank y = false := by
    intro y hy
    obtain rfl : x = y := by simpa [heq] using hy
    rcases hx with rfl | hx
    · decide
    · exact (hoperand hx).2
  have hkept : Fragment.Kept right := by
    cases h with
    | quoted content => exact .literal content
    | unquoted hne hall => exact .word fun x hx => hoperand (hall x hx)
  exact hkept.spaced (by simp [heq]) hfirst

/-- The text of a condition that was read is kept, with a space before it. -/
theorem Layout.Fits.kept {c : JoinCondition} {l : Layout} (h : l.Fits c) :
    Fragment.Kept (' ' :: c.text.toList) := by
  have hleft : IsOperand c.left.toList := .unquoted h.left_ne fun x hx =>
    Text.isOperandChar_of_isReferenceChar ((h.left_run []).all x hx)
  have hsymbol : Fragment.Kept (' ' :: c.op.symbol.toList) := by
    cases c.op <;> exact ⟨fun _ => rfl, rfl, fun x hx => by cases hx; rfl⟩
  have hsplit : ' ' :: c.text.toList =
      ' ' :: c.left.toList ++ (' ' :: c.op.symbol.toList ++ ' ' :: c.right.toList) := by
    simp [toList_text, written, JoinCondition.ownLayout]
  rw [hsplit]
  exact hleft.kept.append (hsymbol.append h.right.kept)

/-- A text that writes a condition is neither AND nor OR: their letters would all be part of the
left side. -/
theorem ofToken?_eq_none (h : ofText s = .ok c) : Connective.ofToken? s = none := by
  obtain ⟨l, hfits, htext⟩ := ofText_eq_ok_iff.1 h
  obtain ⟨x, xs, hsign, -⟩ := hfits.sign.exists_head
  rw [Option.eq_none_iff_forall_ne_some]
  intro word hword
  rw [Text.toList_trim] at htext
  have hall : ∀ y ∈ c.written l, Text.isReferenceChar y = true := fun y hy =>
    Connective.isReferenceChar_of_ofToken? hword (htext ▸ hy)
  have hleft : c.written l = c.left.toList :=
    (List.takeWhile_eq_self_iff.2 hall).symm.trans hfits.left
  have hlength := congrArg List.length hleft
  simp [written, hsign] at hlength

end JoinCondition

namespace JoinTerm

/-- A term of the ON clause, a blank in front of every part. -/
def spelled (t : JoinTerm) : String :=
  (match t.connective with
    | some word => " " ++ word.keyword
    | none => "") ++ " " ++ t.condition.text

/-- The ON clause without the blank in front of it. -/
def onText (terms : List JoinTerm) : String :=
  "ON" ++ String.join (terms.map spelled)

theorem onClause_eq {terms : List JoinTerm} (hne : terms ≠ []) :
    onClause terms = " " ++ onText terms := by
  have hempty : terms.isEmpty = false := by simpa using hne
  have hword : " ON" = " " ++ "ON" := by decide
  rw [onClause, hempty, if_neg Bool.false_ne_true, onText, ← String.append_assoc, ← hword]
  rfl

theorem toList_onText (terms : List JoinTerm) :
    (onText terms).toList = 'O' :: 'N' :: terms.flatMap fun t => t.spelled.toList := by
  simp [onText, String.toList_join, List.flatMap_map]

/-- A term is kept if its condition was read. -/
theorem kept_spelled {t : JoinTerm} (h : ∃ s, JoinCondition.ofText s = .ok t.condition) :
    Fragment.Kept t.spelled.toList := by
  obtain ⟨s, hs⟩ := h
  obtain ⟨l, hfits, -⟩ := JoinCondition.ofText_eq_ok_iff.1 hs
  rcases t with ⟨condition, _ | word⟩
  · have hspelled : (spelled ⟨condition, none⟩).toList = ' ' :: condition.text.toList := by
      simp [spelled]
    rw [hspelled]
    exact hfits.kept
  · have hword : Fragment.Kept (' ' :: word.keyword.toList) := by
      cases word <;> exact ⟨fun _ => rfl, rfl, fun x hx => by cases hx; rfl⟩
    have hspelled : (spelled ⟨condition, some word⟩).toList =
        ' ' :: word.keyword.toList ++ ' ' :: condition.text.toList := by
      simp [spelled]
    rw [hspelled]
    exact hword.append hfits.kept

/-- The ON clause of conditions that were read is kept. -/
theorem kept_onText {terms : List JoinTerm}
    (h : ∀ t ∈ terms, ∃ s, JoinCondition.ofText s = .ok t.condition) :
    Fragment.Kept (onText terms).toList := by
  have hword : Fragment.Kept ['O', 'N'] := .word (by decide)
  rw [toList_onText]
  exact hword.append (.flatMap fun t ht => kept_spelled (h t ht))

end JoinTerm

/-- **The ON clause of conditions that were read stands in the JOIN clause as it is**, if what
is joined and its name have balanced quotes. -/
theorem Join.contains_onText {target : JoinTarget} {asName : String} {terms : List JoinTerm}
    (htarget : ∀ l ∈ target.leaves, l.Balanced) (hname : Text.Balanced asName.toList)
    (hterms : ∀ t ∈ terms, ∃ s, JoinCondition.ofText s = .ok t.condition) (hne : terms ≠ [])
    (d : Dialect) (kind : JoinKind) (r : Rendering) (k : Nat) :
    (JoinTerm.onText terms).toList <:+: (Join.doc d ⟨target, kind, terms, asName⟩).text r k := by
  have hkind : Text.insideAfter false kind.keyword.toList = false := by cases kind <;> rfl
  have hjoined : Text.insideAfter false ((target.doc d).text r k) = false :=
    Doc.insideAfter_text r k (by rwa [JoinTarget.leaves_doc])
  have hjoin : Text.insideAfter false " JOIN ".toList = false := rfl
  have hspace : Text.insideAfter false [' '] = false := rfl
  have htext : (Join.doc d ⟨target, kind, terms, asName⟩).text r k = Fragment.collapseChars
      (kind.keyword.toList ++ " JOIN ".toList ++ (target.doc d).text r k ++ [' '] ++
        asName.toList ++ [' '] ++ (JoinTerm.onText terms).toList) := by
    rw [Join.doc, Doc.text_collapsed]
    simp [JoinTerm.text_clauseDoc, JoinTerm.onClause_eq hne]
  have hkept := JoinTerm.kept_onText hterms
  rw [htext, JoinTerm.toList_onText]
  rw [JoinTerm.toList_onText] at hkept
  refine hkept.infix_collapseChars (by decide) (by decide) ?_
  simp only [Text.insideAfter_append, hkind, hjoin, hjoined, hspace, Text.balanced_iff.1 hname]

namespace ConditionSpec

/-- The terms of a sequence of texts were all read, that of each condition among them. -/
theorem conditions_of_texts {texts : List String} {terms : List JoinTerm}
    (h : (sequence (texts.map .text)).resolve = .ok terms) :
    (∀ t ∈ terms, ∃ s, JoinCondition.ofText s = .ok t.condition) ∧
      ∀ s ∈ texts, ∀ c, JoinCondition.ofText s = .ok c → ∃ t ∈ terms, t.condition = c := by
  have hread {s : String} {c : JoinCondition} :
      (ConditionItem.text s).condition = .ok c ↔ JoinCondition.ofText s = .ok c := by
    rw [ConditionItem.condition, JoinCondition.ofSequenceText]
    cases JoinCondition.ofText s <;> simp
  have hconditions := (scan_of_resolve_sequence h).1.map_condition
  constructor
  · intro t ht
    have hmem : .ok t.condition ∈ (List.filter ConditionItem.isCondition
        (texts.map .text)).map ConditionItem.condition := by
      rw [hconditions]
      exact List.mem_map_of_mem ht
    obtain ⟨item, hitem, hcondition⟩ := List.mem_map.1 hmem
    obtain ⟨s, -, rfl⟩ := List.mem_map.1 (List.mem_filter.1 hitem).1
    exact ⟨s, hread.1 hcondition⟩
  · intro s hs c hc
    have hitem : ConditionItem.text s ∈ (texts.map .text).filter ConditionItem.isCondition :=
      List.mem_filter.2 ⟨List.mem_map_of_mem hs,
        ConditionItem.isCondition_iff.2 (JoinCondition.ofToken?_eq_none hc)⟩
    have hmem : (ConditionItem.text s).condition ∈ (List.filter ConditionItem.isCondition
        (texts.map .text)).map ConditionItem.condition := List.mem_map_of_mem hitem
    rw [hconditions, hread.2 hc] at hmem
    obtain ⟨t, ht, heq⟩ := List.mem_map.1 hmem
    exact ⟨t, ht, Except.ok.inj heq⟩

end ConditionSpec

namespace JoinCondition

/-- **A condition that was read is read again from its text, and its text denotes it in SQL.**
In the ON clause of a join the text stands as it is, with the conditions and words of its
sequence, whatever the text was that the condition was read from; what is joined and its name
must have balanced quotes. -/
theorem exists_onClause {s : String} {c : JoinCondition} (h : ofText s = .ok c) :
    ofText c.text = .ok c ∧
    ∀ (host host' : Query) (kind : JoinKind) (target : JoinTarget) (asName : String)
      (texts : List String), s ∈ texts →
      host.call (.join kind target (.sequence (texts.map .text)) asName) = .ok host' →
      (∀ l ∈ target.leaves, l.Balanced) → Text.Balanced asName.toList →
      ∃ terms on, host' = { host with joins := host.joins ++ [⟨target, kind, terms, asName⟩] } ∧
        (∃ t ∈ terms, t.condition = c) ∧ JoinTerm.onClause terms = " " ++ on ∧
        ∀ d, on.toList <:+: (host'.compile d).sql.toList ∧
          on.toList <:+: (host'.inline d).toList := by
  refine ⟨ofText_text h, fun host host' kind target asName texts hs hcall htarget hname => ?_⟩
  rw [Query.call_eq] at hcall
  obtain ⟨edit, hedit, rfl⟩ := exists_of_map_eq_ok hcall
  obtain ⟨-, terms, hterms, rfl⟩ := Call.of_resolve_join hedit
  obtain ⟨hread, hmem⟩ := ConditionSpec.conditions_of_texts hterms
  have hne := (ConditionSpec.scan_of_resolve_sequence hterms).2
  refine ⟨terms, _, rfl, hmem s hs c h, JoinTerm.onClause_eq hne, fun d => ?_⟩
  obtain ⟨before, after, -, hholds⟩ :=
    Query.exists_holds_join d host ⟨target, kind, terms, asName⟩
  have hcontains (r : Rendering) :=
    (Join.contains_onText htarget hname hread hne d kind r _).trans (hholds.text r 0)
  rw [Query.compile_eq, Query.inline_eq, String.toList_ofList, String.toList_ofList]
  exact ⟨hcontains ⟨d, .bound⟩, hcontains ⟨d, .inline⟩⟩

/-- A literal keeps its blanks, quotes and words, and the operator is written anew. -/
theorem exists_onClause_literal :
    ofText "a.b  nOt\tlike'x  ''and'" = .ok ⟨"a.b", .notLike, "'x  ''and'"⟩ ∧
    ofText "a.b NOT LIKE 'x  ''and'" = .ok ⟨"a.b", .notLike, "'x  ''and'"⟩ ∧
    ∃ host' terms on, (Query.table "t" none).call (.join .left (.table "u")
        (.sequence [.text "x=1", .text "or", .text "a.b  nOt\tlike'x  ''and'"]) "") = .ok host' ∧
      JoinTerm.onClause terms = " " ++ on ∧
      ∀ d, on.toList <:+: (host'.compile d).sql.toList := by
  have hread : ofText "a.b  nOt\tlike'x  ''and'" = .ok ⟨"a.b", .notLike, "'x  ''and'"⟩ := by decide
  obtain ⟨hagain, hjoin⟩ := exists_onClause hread
  obtain ⟨terms, on, -, -, hon, hsql⟩ := hjoin (Query.table "t" none) _ .left (.table "u") ""
    ["x=1", "or", "a.b  nOt\tlike'x  ''and'"] (by simp) rfl
    (by simp [JoinTarget.leaves, Leaf.Balanced, Text.Balanced]) (by decide)
  exact ⟨hread, hagain, _, terms, on, rfl, hon, fun d => (hsql d).1⟩

end JoinCondition

end SelectSql
