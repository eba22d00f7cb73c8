import SelectSql.Proofs.Definitions
import SelectSql.Proofs.OperatorTokens

/-!
# SelectSql.Proofs.Sequences

What a sequence of conditions and words resolves to, and which of its items is the error.

Design points:

* **The words are cut at the conditions** (`ConditionItem.stretches`). A condition is tied to
  the one before it by the last word between them; the words in front of the first condition
  and behind the last one tie nothing.
* **The scan carries the word that it read last.** Its stretches therefore fall back to any
  word and not to AND alone, until a condition has been read (`ConditionItem.tiesFrom`).
* **A scan that reaches the end** goes over words and conditions (`ConditionItem.Scan`). What
  holds of its terms is proved by induction on it.
* **The first item that cannot be read is the error** (`ConditionItem.Offends`), whatever
  stands behind it.

Main statement: `ConditionSpec.resolve_sequence`.
-/

namespace SelectSql

namespace ConditionItem

variable {item : ConditionItem} {items : List ConditionItem} {word : Connective}
  {first : Bool} {pending : Connective} {terms : List JoinTerm} {e : QueryError}

/-! ## Stretches of words -/

/-- An item that is a condition, not a word. -/
def isCondition (item : ConditionItem) : Bool :=
  item.connective?.isNone

theorem isCondition_iff : item.isCondition = true ↔ item.connective? = none :=
  Option.isNone_iff_eq_none

theorem isCondition_eq_false_iff :
    item.isCondition = false ↔ item.connective?.isSome = true := by
  rw [isCondition]
  cases item.connective? <;> simp

/-- The words of a sequence, cut at its conditions: those in front of the first condition, those
between two conditions, and those behind the last one. -/
def stretches (items : List ConditionItem) : List (List Connective) :=
  (items.splitOnP isCondition).map (·.filterMap connective?)

/-- The word that ties a condition to the one before: the last one between them, or AND. -/
def tie (words : List Connective) : Connective :=
  words.getLast?.getD .and

/-- The words that tie the conditions of a sequence. The first condition has none. -/
def ties (items : List ConditionItem) : List (Option Connective) :=
  none :: (stretches items).tail.dropLast.map fun words => some (tie words)

theorem stretches_ne_nil (items : List ConditionItem) : stretches items ≠ [] := by
  rw [stretches, Ne, List.map_eq_nil_iff]
  exact List.splitOnP_ne_nil isCondition items

theorem stretches_word (h : item.connective? = some word) :
    stretches (item :: items) = (stretches items).modifyHead (word :: ·) := by
  have hitem : item.isCondition = false := by rw [isCondition, h]; rfl
  rw [stretches, stretches, List.splitOnP_cons_eq_if_modifyHead, hitem, if_neg Bool.false_ne_true]
  cases items.splitOnP isCondition with
  | nil => rfl
  | cons stretch rest => simp [h]

theorem stretches_condition (h : item.connective? = none) :
    stretches (item :: items) = [] :: stretches items := by
  have hitem : item.isCondition = true := by rw [isCondition, h]; rfl
  rw [stretches, stretches, List.splitOnP_cons_eq_if_modifyHead, hitem, if_pos rfl]
  rfl

/-! ## One step of the scan -/

theorem resolve_word (h : item.connective? = some word) :
    resolve first pending (item :: items) = resolve first word items := by
  rw [resolve, h]

theorem resolve_condition {c : JoinCondition} (h : item.connective? = none)
    (hc : item.condition = .ok c) : resolve first pending (item :: items) =
      (resolve false .and items).map (⟨c, if first then none else some pending⟩ :: ·) := by
  rw [resolve, h, hc]

theorem resolve_offending (h : item.connective? = none) (he : item.condition = .error e) :
    resolve first pending (item :: items) = .error e := by
  rw [resolve, h, he]

/-! ## What the scan gives -/

/-- A scan that reaches the end of a sequence, and the terms that it gives. It has read the word
`pending` last, and `first` tells that no condition stands before it. -/
inductive Scan : Bool → Connective → List ConditionItem → List JoinTerm → Prop
  | done {first : Bool} {pending : Connective} : Scan first pending [] []
  /-- A word takes the place of the one that was read before. -/
  | word {first : Bool} {pending word : Connective} {item : ConditionItem}
      {items : List ConditionItem} {terms : List JoinTerm} (hword : item.connective? = some word)
      (rest : Scan first word items terms) : Scan first pending (item :: items) terms
  /-- A condition is tied by the word that was read last, and AND comes next. -/
  | condition {first : Bool} {pending : Connective} {item : ConditionItem}
      {items : List ConditionItem} {c : JoinCondition} {terms : List JoinTerm}
      (hword : item.connective? = none) (hcondition : item.condition = .ok c)
      (rest : Scan false .and items terms) :
      Scan first pending (item :: items) (⟨c, if first then none else some pending⟩ :: terms)

theorem scan_of_resolve (h : resolve first pending items = .ok terms) :
    Scan first pending items terms := by
  induction items generalizing first pending terms with
  | nil =>
      obtain rfl := Except.ok.inj h
      exact .done
  | cons item items ih =>
      cases hword : item.connective? with
      | some word => exact .word hword (ih (resolve_word hword ▸ h))
      | none =>
          cases hcondition : item.condition with
          | error e =>
              rw [resolve_offending hword hcondition] at h
              contradiction
          | ok c =>
              rw [resolve_condition hword hcondition] at h
              obtain ⟨rest, hrest, rfl⟩ := exists_of_map_eq_ok h
              exact .condition hword hcondition (ih hrest)

/-- The conditions of the terms are those of the sequence, in their order. -/
theorem Scan.map_condition (h : Scan first pending items terms) :
    (items.filter isCondition).map ConditionItem.condition =
      terms.map fun t => .ok t.condition := by
  induction h with
  | done => rfl
  | word hword rest ih =>
      rwa [List.filter_cons_of_neg]
      rw [isCondition_iff, hword]
      exact Option.some_ne_none _
  | condition hword hcondition rest ih =>
      rw [List.filter_cons_of_pos (isCondition_iff.2 hword), List.map_cons, ih, hcondition,
        List.map_cons]

/-- The words of the terms behind a scan that has read `pending` last, `first` telling that no
condition stands before it: stretch by stretch, that behind the last condition left out. -/
def tiesFrom (first : Bool) (pending : Connective) :
    List (List Connective) → List (Option Connective)
  | [] => []
  | words :: rest =>
    (if first then none else some (words.getLast?.getD pending)) ::
      rest.map fun words => some (tie words)

/-- Behind a condition every stretch falls back to AND. -/
theorem tiesFrom_and (stretches : List (List Connective)) :
    tiesFrom false .and stretches = stretches.map fun words => some (tie words) := by
  cases stretches <;> rfl

/-- A word of a stretch takes the place of the one that was read before. -/
theorem tiesFrom_word (stretches : List (List Connective)) :
    tiesFrom first pending (stretches.modifyHead (word :: ·)) = tiesFrom first word stretches := by
  cases stretches with
  | nil => rfl
  | cons words rest =>
      rw [List.modifyHead_cons, tiesFrom, tiesFrom, List.getLast?_cons, Option.getD_some]

/-- **The words of the terms** are those that tie the conditions of the sequence. -/
theorem Scan.map_connective (h : Scan first pending items terms) :
    terms.map (·.connective) = tiesFrom first pending (stretches items).dropLast := by
  induction h with
  | done => rfl
  | word hword rest ih =>
      rw [ih, stretches_word hword, ← List.modifyHead_dropLast, tiesFrom_word]
  | @condition first pending item items c terms hword hcondition rest ih =>
      rw [stretches_condition hword, List.dropLast_cons_of_ne_nil (stretches_ne_nil items),
        List.map_cons, ih, tiesFrom_and]
      rfl

/-! ## What is reported -/

/-- A triple is read if its operator is known, and a text if it is a word or a condition. -/
theorem forall_readable_iff (items : List ConditionItem) : (∀ i ∈ items, i.Readable) ↔
    (∀ left op right, .triple left op right ∈ items → (Operator.ofToken op).isOk = true) ∧
    ∀ s, .text s ∈ items →
      (Connective.ofToken? s).isSome = true ∨ (JoinCondition.ofText s).isOk = true := by
  have htriple (left op right : String) :
      (triple left op right).Readable ↔ (Operator.ofToken op).isOk = true := by
    rw [Readable, connective?, condition, JoinCondition.ofTriple, isOk_map]
    exact or_iff_right Bool.false_ne_true
  have htext (s : String) : (text s).Readable ↔
      (Connective.ofToken? s).isSome = true ∨ (JoinCondition.ofText s).isOk = true := by
    rw [Readable, connective?, condition, JoinCondition.ofSequenceText]
    cases JoinCondition.ofText s <;> rfl
  constructor
  · intro h
    exact ⟨fun left op right hi => (htriple left op right).1 (h _ hi),
      fun s hi => (htext s).1 (h _ hi)⟩
  · rintro ⟨htriples, htexts⟩ (⟨left, op, right⟩ | s) hi
    · exact (htriple left op right).2 (htriples left op right hi)
    · exact (htext s).2 (htexts s hi)

/-- An item is neither a word nor a condition, and this is what is reported about it: the
operator token of a triple as it was given, and a text with the reason why it is no condition. -/
def Offends : ConditionItem → QueryError → Prop
  | .triple _ op _, e => (Operator.ofToken op).isOk = false ∧ e = .unsupportedOperator op
  | .text s, e => Connective.ofToken? s = none ∧ ∃ reason, JoinCondition.ofText s = .error reason ∧
      e = .malformedCondition s!"'{s}' is neither a condition nor AND/OR ({reason.message})"

theorem offends_iff : item.Offends e ↔ item.connective? = none ∧ item.condition = .error e := by
  cases item with
  | triple left op right =>
      rw [Offends, ← Operator.ofToken_eq_error_iff, connective?, condition, JoinCondition.ofTriple]
      cases Operator.ofToken op <;> simp [Except.map]
  | text s =>
      rw [Offends, connective?, condition, JoinCondition.ofSequenceText]
      cases JoinCondition.ofText s <;> simp [eq_comm]

/-- The first item of a sequence that offends, and what is reported about it. -/
def BreaksOff (items : List ConditionItem) (e : QueryError) : Prop :=
  ∃ before item after, items = before ++ item :: after ∧ (∀ i ∈ before, i.Readable) ∧
    item.Offends e

theorem breaksOff_cons :
    BreaksOff (item :: items) e ↔ item.Offends e ∨ item.Readable ∧ BreaksOff items e := by
  constructor
  · rintro ⟨before, item', after, heq, hbefore, hitem⟩
    cases before with
    | nil =>
        obtain ⟨rfl, -⟩ := List.cons.inj heq
        exact .inl hitem
    | cons b before =>
        obtain ⟨rfl, rfl⟩ := List.cons.inj heq
        obtain ⟨hb, hbefore⟩ := List.forall_mem_cons.1 hbefore
        exact .inr ⟨hb, before, item', after, rfl, hbefore, hitem⟩
  · rintro (hitem | ⟨hread, before, item', after, rfl, hbefore, hitem⟩)
    · exact ⟨[], item, items, rfl, List.forall_mem_nil _, hitem⟩
    · exact ⟨item :: before, item', after, rfl, List.forall_mem_cons.2 ⟨hread, hbefore⟩, hitem⟩

/-- **The first item that offends is the error.** -/
theorem resolve_eq_error_iff : resolve first pending items = .error e ↔ BreaksOff items e := by
  induction items generalizing first pending with
  | nil => exact iff_of_false (fun h => nomatch h) (by simp [BreaksOff])
  | cons item items ih =>
      rw [breaksOff_cons, offends_iff, Readable]
      cases hword : item.connective? with
      | some word => simp [resolve_word hword, ih]
      | none =>
          cases hcondition : item.condition with
          | error e' => simp [resolve_offending hword hcondition, Except.isOk, Except.toBool]
          | ok c =>
              rw [resolve_condition hword hcondition, ← ih]
              cases resolve false .and items <;> simp [Except.map, Except.isOk, Except.toBool]

end ConditionItem

/-! ## Sequences of a join -/

namespace ConditionSpec

open ConditionItem

variable {items : List ConditionItem} {terms : List JoinTerm} {e : QueryError}

/-- A sequence resolves to what the scan gives, unless that is nothing. -/
theorem resolve_sequence_eq_ok_iff : (sequence items).resolve = .ok terms ↔
    ConditionItem.resolve true .and items = .ok terms ∧ terms ≠ [] := by
  rw [resolve]
  rcases ConditionItem.resolve true .and items with e | (_ | ⟨t, ts⟩)
  · simp
  · simp
  · rw [Except.ok.injEq]
    exact ⟨fun h => ⟨h, h ▸ List.cons_ne_nil t ts⟩, And.left⟩

/-- What a sequence resolves to is what the scan gives, and it has a condition at least. -/
theorem scan_of_resolve_sequence (h : (sequence items).resolve = .ok terms) :
    Scan true .and items terms ∧ terms ≠ [] :=
  (resolve_sequence_eq_ok_iff.1 h).imp_left scan_of_resolve

/-- A sequence that does not resolve breaks off at an item or has no condition. -/
theorem resolve_sequence_eq_error_iff : (sequence items).resolve = .error e ↔
    BreaksOff items e ∨ (∀ i ∈ items, i.isCondition = false) ∧
      e = .malformedCondition "no condition found in join condition sequence" := by
  have hscan : ConditionItem.resolve true .and items = .error e ↔ BreaksOff items e :=
    resolve_eq_error_iff
  simp only [isCondition_eq_false_iff]
  rw [← hscan, resolve]
  rcases resolve_cases true .and items with ⟨-, terms, hterms, hnil⟩ | ⟨hnot, e', he⟩
  · rw [hterms, ← hnil]
    cases terms <;> simp [eq_comm]
  · have hwords : ¬ ∀ i ∈ items, i.connective?.isSome = true :=
      fun h => hnot fun i hi => .inl (h i hi)
    rw [he]
    exact (or_iff_left fun h => hwords h.1).symm

/-- The words of a resolved sequence are those that tie its conditions. -/
theorem map_connective_sequence (h : (sequence items).resolve = .ok terms) :
    terms.map (·.connective) = ties items := by
  obtain ⟨hscan, hne⟩ := scan_of_resolve_sequence h
  have hwords := hscan.map_connective
  cases hcut : (stretches items).dropLast with
  | nil =>
      rw [hcut, tiesFrom, List.map_eq_nil_iff] at hwords
      exact absurd hwords hne
  | cons words rest =>
      rw [hcut, tiesFrom, if_pos rfl] at hwords
      rw [hwords, ties, ← List.tail_dropLast, hcut, List.tail_cons]

/-- The last of several words counts, and words at either end tie nothing. -/
example : ties [.text "or", .triple "a" "=" "b", .text "and", .text "Or", .triple "c" "=" "d",
    .triple "e" "=" "f", .text "or"] = [none, some .or, some .and] := by
  decide

/-- A join whose conditions do not resolve is refused. -/
theorem call_join_eq_error (h : (sequence items).resolve = .error e) (host : Query)
    {kind : JoinKind} (hkind : kind ≠ .cross) (target : JoinTarget) (asName : String) :
    host.call (.join kind target (.sequence items) asName) = .error e := by
  rw [Query.call_eq, Call.resolve, if_neg hkind, h]
  rfl

/-- A join that is refused changes nothing. -/
theorem run_join_eq_self (h : (sequence items).resolve = .error e) (host : Query)
    (kind : JoinKind) (target : JoinTarget) (asName : String) :
    host.run [.join kind target (.sequence items) asName] = host := by
  have hrefused : ∃ e, (Call.join kind target (.sequence items) asName).resolve = .error e := by
    rw [Call.resolve, h]
    split
    · exact ⟨target.crossJoinError, rfl⟩
    · exact ⟨e, rfl⟩
  obtain ⟨e', he⟩ := hrefused
  rw [Query.run_cons, Query.after_of_error he, Query.run_nil]

/-- **What a sequence of conditions and words resolves to.**

* It resolves exactly if the operator of every triple is known, every text is one of the words
  AND and OR or a condition, and one item at least is a condition.
* It resolves to its conditions in their order. The first one has no word, and every other one
  the last word between it and the condition before, or AND if there is none.
* Otherwise the error is that of the first item that is neither a word nor a condition, or that
  there is no condition at all.
* A join whose conditions do not resolve is refused, with this error unless it is a cross join,
  and leaves the query as it is. -/
theorem resolve_sequence (items : List ConditionItem) :
    ((sequence items).resolve.isOk = true ↔
      (∀ left op right, .triple left op right ∈ items → (Operator.ofToken op).isOk = true) ∧
      (∀ s, .text s ∈ items →
        (Connective.ofToken? s).isSome = true ∨ (JoinCondition.ofText s).isOk = true) ∧
      ∃ i ∈ items, i.isCondition = true) ∧
    (∀ terms, (sequence items).resolve = .ok terms →
      (items.filter isCondition).map condition = terms.map (fun t => .ok t.condition) ∧
      terms.map (·.connective) = ties items) ∧
    (∀ e, (sequence items).resolve = .error e ↔
      BreaksOff items e ∨ (∀ i ∈ items, i.isCondition = false) ∧
        e = .malformedCondition "no condition found in join condition sequence") ∧
    ∀ e, (sequence items).resolve = .error e →
      ∀ (host : Query) (kind : JoinKind) (target : JoinTarget) (asName : String),
        (kind ≠ .cross → host.call (.join kind target (.sequence items) asName) = .error e) ∧
        host.run [.join kind target (.sequence items) asName] = host := by
  refine ⟨?_, fun terms h => ?_, fun e => resolve_sequence_eq_error_iff,
    fun e h host kind target asName => ?_⟩
  · rw [isOk_resolve_sequence, forall_readable_iff, and_assoc]
    simp only [isCondition_iff]
  · exact ⟨(scan_of_resolve_sequence h).1.map_condition, map_connective_sequence h⟩
  · exact ⟨fun hkind => call_join_eq_error h host hkind target asName,
      run_join_eq_self h host kind target asName⟩

end ConditionSpec

end SelectSql
