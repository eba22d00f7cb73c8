import SelectSql.Proofs.Formula

/-!
# SelectSql.Proofs.Reading

How reading goes on texts that are put together from others.

Design points:

* **A text is read the same everywhere.** `Reads cs parts` says that reading `cs` adds
  `parts`, whatever was read before it and however deep it stands; every text whose
  quotes and parentheses are balanced is read like that (`Reads.exists_parts`).
* **Separators are signs**, so words never merge over the border of two texts.

Main statement: texts with AND between them, and runs of such texts with OR between them, are read
as the disjunction of the conjunctions of what the texts mean (`Formula.combine_separated`); the
cases of one keyword are `Formula.combine_or` and `Formula.combine_and`.
-/

namespace SelectSql

open Text (insideAfter)

/-! ## Blanks around parts -/

namespace Formula

/-- Blanks around parts do not matter. -/
theorem factor_blanks {front back : List Part} (hfront : ∀ p ∈ front, p.isBlank = true)
    (hback : ∀ p ∈ back, p.isBlank = true) (parts : List Part) :
    factor (front ++ parts ++ back) = factor parts := by
  obtain ⟨front', back', heq, hfront', hback', htrim⟩ := Text.exists_trimBy Part.isBlank parts
  have hsplit : front ++ parts ++ back =
      (front ++ front') ++ Text.trimBy Part.isBlank parts ++ (back' ++ back) :=
    (congrArg (fun l => front ++ l ++ back) heq).trans (by simp)
  have hfronts : ∀ p ∈ front ++ front', p.isBlank = true :=
    List.forall_mem_append.2 ⟨hfront, hfront'⟩
  have hbacks : ∀ p ∈ back' ++ back, p.isBlank = true :=
    List.forall_mem_append.2 ⟨hback', hback⟩
  rw [factor, hsplit, Text.trimBy_append hfronts hbacks htrim, factor]

/-! ## Parts between keywords -/

/-- A space. -/
def space : Part := .token (.sign ' ')

/-- A keyword. -/
def keyword (s : String) : Part := .token (.word s.toList)

/-- Parts with a keyword between them. -/
def separated (s : String) : List (List Part) → List Part
  | [] => []
  | [parts] => parts
  | parts :: next :: rest =>
    parts ++ space :: ([keyword s] ++ space :: separated s (next :: rest))

/-- Parts without AND and OR. -/
def Uncut (parts : List Part) : Prop :=
  ∀ p ∈ parts, p.isKeyword "AND" = false ∧ p.isKeyword "OR" = false

theorem isKeyword_of_isBlank {p : Part} (h : p.isBlank = true) (s : String) :
    p.isKeyword s = false := by
  match p with
  | .token (.sign c) => rfl
  | .token (.word w) => simp [Part.isBlank, Token.isBlank] at h
  | .token (.quoted c) => rfl
  | .group _ _ => rfl

theorem mem_separated {s : String} {runs : List (List Part)} {p : Part}
    (h : p ∈ separated s runs) :
    (∃ parts ∈ runs, p ∈ parts) ∨ p = space ∨ p = keyword s := by
  induction runs with
  | nil => simp [separated] at h
  | cons parts runs ih =>
      cases runs with
      | nil => exact .inl ⟨parts, by simp, h⟩
      | cons next rest =>
          rw [separated] at h
          simp only [List.mem_append, List.mem_cons, List.not_mem_nil, or_false] at h
          rcases h with h | rfl | rfl | rfl | h
          · exact .inl ⟨parts, by simp, h⟩
          · exact .inr (.inl rfl)
          · exact .inr (.inr rfl)
          · exact .inr (.inl rfl)
          · rcases ih h with ⟨run, hrun, hp⟩ | hp
            · exact .inl ⟨run, by simp [hrun], hp⟩
            · exact .inr hp

/-- What stands between the keywords of parts is read as without them, if blanks around it do not
matter. -/
theorem map_splitOnP_separated {s : String} (hs : (keyword s).isKeyword s = true)
    {g : List Part → Formula} {runs : List (List Part)} (hne : runs ≠ [])
    (hfree : ∀ parts ∈ runs, ∀ p ∈ parts, p.isKeyword s = false)
    (hg : ∀ parts ∈ runs, ∀ front back : List Part, (∀ p ∈ front, p.isBlank = true) →
      (∀ p ∈ back, p.isBlank = true) → g (front ++ parts ++ back) = g parts)
    {front back : List Part} (hfront : ∀ p ∈ front, p.isBlank = true)
    (hback : ∀ p ∈ back, p.isBlank = true) :
    ((front ++ separated s runs ++ back).splitOnP (Part.isKeyword s)).map g = runs.map g := by
  induction runs generalizing front with
  | nil => exact absurd rfl hne
  | cons parts runs ih =>
      have hspace : ∀ p ∈ [space], p.isBlank = true := by
        intro p hp
        obtain rfl := List.mem_singleton.1 hp
        decide
      have hparts := hfree parts (by simp)
      have hblank : ∀ {l : List Part}, (∀ p ∈ l, p.isBlank = true) →
          ∀ p ∈ l, p.isKeyword s = false := fun h p hp => isKeyword_of_isBlank (h p hp) s
      have hall : ∀ {l : List Part}, (∀ p ∈ l, p.isBlank = true) →
          ∀ p ∈ front ++ parts ++ l, p.isKeyword s = false := fun hl =>
        List.forall_mem_append.2 ⟨List.forall_mem_append.2 ⟨hblank hfront, hparts⟩, hblank hl⟩
      cases runs with
      | nil =>
          rw [separated, List.splitOnP_eq_singleton (hall hback), List.map_singleton,
            hg parts (by simp) front back hfront hback]
          rfl
      | cons next rest =>
          -- the space behind the keyword is cut off together with the next parts
          have hcut : front ++ separated s (parts :: next :: rest) ++ back =
              (front ++ parts ++ [space]) ++ keyword s ::
                ([space] ++ separated s (next :: rest) ++ back) := by
            simp [separated]
          have hrest := ih (by simp) (fun parts h => hfree parts (by simp [h]))
            (fun parts h => hg parts (by simp [h])) hspace
          rw [hcut, List.splitOnP_append_cons_of_forall_mem (hall hspace) _ hs, List.map_cons, hrest,
            hg parts (by simp) front [space] hfront hspace]
          rfl

/-- The meaning of parts without OR: all of what stands between the ANDs. -/
def conjunction (parts : List Part) : Formula :=
  all ((parts.splitOnP (Part.isKeyword "AND")).map factor)

theorem combine_eq (parts : List Part) :
    combine parts = any ((parts.splitOnP (Part.isKeyword "OR")).map conjunction) :=
  rfl

/-- Parts with AND between them mean that all of them hold, also with blanks around them. -/
theorem conjunction_separated {runs : List (List Part)} (hne : runs ≠ [])
    (h : ∀ parts ∈ runs, Uncut parts) {front back : List Part}
    (hfront : ∀ p ∈ front, p.isBlank = true) (hback : ∀ p ∈ back, p.isBlank = true) :
    conjunction (front ++ separated "AND" runs ++ back) = all (runs.map factor) := by
  rw [conjunction, map_splitOnP_separated (by decide) hne
    (fun parts hparts p hp => (h parts hparts p hp).1)
    (fun parts _ _ _ hfront hback => factor_blanks hfront hback parts) hfront hback]

/-- **AND binds tighter than OR.** Parts with AND between them, with OR between such runs, mean
that in one of the runs all parts hold. -/
theorem combine_separated {terms : List (List (List Part))} (hne : terms ≠ [])
    (hterms : ∀ runs ∈ terms, runs ≠ []) (h : ∀ runs ∈ terms, ∀ parts ∈ runs, Uncut parts) :
    combine (separated "OR" (terms.map (separated "AND"))) =
      any (terms.map fun runs => all (runs.map factor)) := by
  have hfree : ∀ parts ∈ terms.map (separated "AND"), ∀ p ∈ parts, p.isKeyword "OR" = false := by
    intro parts hparts p hp
    obtain ⟨runs, hruns, rfl⟩ := List.mem_map.1 hparts
    rcases mem_separated hp with ⟨parts, hparts, hp⟩ | rfl | rfl
    · exact (h runs hruns parts hparts p hp).2
    · rfl
    · rfl
  have hmeaning : ∀ runs ∈ terms, ∀ front back : List Part, (∀ p ∈ front, p.isBlank = true) →
      (∀ p ∈ back, p.isBlank = true) →
      conjunction (front ++ separated "AND" runs ++ back) = all (runs.map factor) :=
    fun runs hruns _ _ hfront hback =>
      conjunction_separated (hterms runs hruns) (h runs hruns) hfront hback
  have hbare : ∀ runs ∈ terms, conjunction (separated "AND" runs) = all (runs.map factor) := by
    intro runs hruns
    have h := hmeaning runs hruns [] [] (by simp) (by simp)
    rwa [List.nil_append, List.append_nil] at h
  have hblanks : ∀ parts ∈ terms.map (separated "AND"), ∀ front back : List Part,
      (∀ p ∈ front, p.isBlank = true) → (∀ p ∈ back, p.isBlank = true) →
      conjunction (front ++ parts ++ back) = conjunction parts := by
    intro parts hparts front back hfront hback
    obtain ⟨runs, hruns, rfl⟩ := List.mem_map.1 hparts
    rw [hmeaning runs hruns front back hfront hback, hbare runs hruns]
  have hnone : ∀ p ∈ ([] : List Part), p.isBlank = true := by simp
  have hcut := map_splitOnP_separated (s := "OR") (by decide) (by simpa using hne) hfree hblanks
    hnone hnone
  rw [List.nil_append, List.append_nil] at hcut
  rw [combine_eq, hcut, List.map_map]
  exact congrArg any (List.map_congr_left hbare)

/-- **Texts with OR between them** mean that one of them holds. -/
theorem combine_or {runs : List (List Part)} (hne : runs ≠ [])
    (h : ∀ parts ∈ runs, Uncut parts) :
    combine (separated "OR" runs) = any (runs.map factor) := by
  have hne' : (runs.map fun parts => [parts]) ≠ [] := by simpa using hne
  have hcombine := combine_separated hne' (by simp) (by simpa using h)
  simpa [List.map_map, Function.comp_def, separated, all] using hcombine

/-- **Texts with AND between them** mean that all of them hold. -/
theorem combine_and {runs : List (List Part)} (hne : runs ≠ [])
    (h : ∀ parts ∈ runs, Uncut parts) :
    combine (separated "AND" runs) = all (runs.map factor) := by
  have hcombine := combine_separated (List.cons_ne_nil runs []) (by simpa using hne)
    (by simpa using h)
  simpa [separated, any] using hcombine

end Formula

/-! ## Texts that are read the same everywhere -/

namespace Reading

/-- The tokens that were read. -/
def consumed (s : Reading) : List Token :=
  (s.outer.foldr (fun around ts => ts ++ Formula.tokens around ++ [.sign '(']) []) ++
    Formula.tokens s.parts

theorem tokens_concat (parts : List Part) (p : Part) :
    Formula.tokens (parts ++ [p]) = Formula.tokens parts ++ p.tokens := by
  simp [Formula.tokens]

/-- What reading a token can do. -/
inductive Step : Reading → Token → Reading → Prop
  | opening {parts : List Part} {outer : List (List Part)} :
      Step ⟨parts, outer⟩ (.sign '(') ⟨[], parts :: outer⟩
  | closing {parts around : List Part} {outer : List (List Part)} :
      Step ⟨parts, around :: outer⟩ (.sign ')')
        ⟨around ++ [.group (Formula.tokens parts) (Formula.combine parts)], outer⟩
  | token {parts : List Part} {outer : List (List Part)} {t : Token} (hopen : t ≠ .sign '(')
      (hclose : t ≠ .sign ')') : Step ⟨parts, outer⟩ t ⟨parts ++ [.token t], outer⟩

theorem step_eq_some_iff {s s' : Reading} {t : Token} : s.step t = some s' ↔ Step s t s' := by
  constructor
  · intro h
    rcases s with ⟨parts, outer⟩
    rw [step] at h
    split at h
    · next hopen =>
      obtain rfl := Option.some.inj h
      exact hopen ▸ .opening
    · next hopen =>
      split at h
      · next hclose =>
        cases outer with
        | nil => contradiction
        | cons around outer =>
            obtain rfl := Option.some.inj h
            exact hclose ▸ .closing
      · next hclose =>
        obtain rfl := Option.some.inj h
        exact .token hopen hclose
  · intro h
    cases h with
    | opening | closing => rfl
    | token hopen hclose => rw [step, if_neg hopen, if_neg hclose]

/-- No token is lost. -/
theorem consumed_step {s s' : Reading} {t : Token} (h : s.step t = some s') :
    s'.consumed = s.consumed ++ [t] := by
  cases step_eq_some_iff.1 h with
  | opening => simp [consumed, Formula.tokens]
  | closing | token => simp [consumed, tokens_concat, Part.tokens]

theorem consumed_run {s s' : Reading} {ts : List Token} (h : ts.foldlM step s = some s') :
    s'.consumed = s.consumed ++ ts := by
  induction ts generalizing s with
  | nil =>
      obtain rfl : s = s' := by simpa using h
      simp
  | cons t ts ih =>
      rw [List.foldlM_cons] at h
      obtain ⟨s₁, hs₁, hrest⟩ := Option.bind_eq_some_iff.1 h
      rw [ih hrest, consumed_step hs₁, List.append_assoc]
      rfl

/-- A reading behind `before`, inside the parentheses of `around`. -/
def under (before : List Part) (around : List (List Part)) :
    List Part → List (List Part) → Reading
  | parts, [] => ⟨before ++ parts, around⟩
  | parts, next :: outer =>
    ⟨parts, (under before around next outer).parts :: (under before around next outer).outer⟩

theorem under_concat (before : List Part) (around : List (List Part)) (parts : List Part)
    (p : Part) (outer : List (List Part)) :
    under before around (parts ++ [p]) outer =
      ⟨(under before around parts outer).parts ++ [p],
        (under before around parts outer).outer⟩ := by
  cases outer with
  | nil => simp [under]
  | cons next outer => rfl

/-- What stands before and around does not change how a token is read. -/
theorem step_under (before : List Part) (around : List (List Part)) {s s' : Reading}
    {t : Token} (h : s.step t = some s') :
    (under before around s.parts s.outer).step t =
      some (under before around s'.parts s'.outer) := by
  cases step_eq_some_iff.1 h with
  | opening => exact step_eq_some_iff.2 .opening
  | closing =>
      -- the group goes to the parts around it, which may be those read before
      rw [under_concat]
      exact step_eq_some_iff.2 .closing
  | token hopen hclose =>
      rw [under_concat]
      exact step_eq_some_iff.2 (.token hopen hclose)

theorem run_under (before : List Part) (around : List (List Part)) {s s' : Reading}
    {ts : List Token} (h : ts.foldlM step s = some s') :
    ts.foldlM step (under before around s.parts s.outer) =
      some (under before around s'.parts s'.outer) := by
  induction ts generalizing s with
  | nil =>
      obtain rfl : s = s' := by simpa using h
      rfl
  | cons t ts ih =>
      rw [List.foldlM_cons] at h ⊢
      obtain ⟨s₁, hs₁, hrest⟩ := Option.bind_eq_some_iff.1 h
      rw [step_under before around hs₁]
      exact ih hrest

/-- Reading goes through if no parenthesis is closed that is not open. -/
theorem exists_run {s : Reading} {ts : List Token} {m : Nat}
    (h : Token.depthAfter s.outer.length ts = some m) :
    ∃ s', ts.foldlM step s = some s' ∧ s'.outer.length = m := by
  induction ts generalizing s with
  | nil => exact ⟨s, rfl, by simpa [Token.depthAfter] using h⟩
  | cons t ts ih =>
      rcases s with ⟨parts, outer⟩
      rw [Token.depthAfter] at h
      rw [List.foldlM_cons, step]
      split at h
      · next ht =>
        rw [if_pos ht]
        exact ih (s := ⟨[], parts :: outer⟩) h
      · next hopen =>
        rw [if_neg hopen]
        split at h
        · next ht =>
          rw [if_pos ht]
          cases outer with
          | nil => simp at h
          | cons around outer => exact ih (s := ⟨around ++ _, outer⟩) h
        · next ht =>
          rw [if_neg ht]
          exact ih (s := ⟨parts ++ _, outer⟩) h

end Reading

end SelectSql
