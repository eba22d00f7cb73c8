import SelectSql.Query.Call
import Mathlib.Data.List.SplitBy

/-!
# SelectSql.Proofs.Alternatives

What a run of AND and OR calls makes of its predicates. The calls are cut before every
AND into pieces; a piece becomes one operand of the AND, and the predicates of a longer
piece its alternatives.

Design points:

* **The run is followed piece by piece.** Within a piece every call but the first is an
  OR, which only touches the last condition (`push_concat`), so a piece adds one
  condition behind those there are (`pushAll_ors`).
* **The closed form holds for all predicates** (`pushAll_eq`). A group that begins a
  piece is opened, so that its alternatives are those of the piece; a group anywhere
  else becomes one alternative.

Main statement: `Predicate.pushAll_pieces`.
-/

namespace SelectSql

/-! ## Cutting a list -/

/-- What a chain says of the second of two neighbours holds of all but the first. -/
theorem forall_mem_tail_of_isChain {α : Type} {R : α → α → Prop} {P : α → Prop}
    (hR : ∀ x y, R x y → P y) {l : List α} (h : l.IsChain R) : ∀ y ∈ l.tail, P y := by
  induction l with
  | nil => simp
  | cons x l ih =>
      cases l with
      | nil => simp
      | cons y l =>
          obtain ⟨hxy, hl⟩ := List.isChain_cons_cons.1 h
          intro z hz
          rcases List.mem_cons.1 hz with rfl | hz
          · exact hR x z hxy
          · exact ih hl z hz

section Cut

variable {α : Type} {joins : α → Bool} {l : List α}

/-- A list is cut in front of every item that does not join the one before: of a run, all items
but the first join. -/
theorem joins_of_mem_tail {run : List α} (h : run ∈ l.splitBy fun _ x => joins x) :
    ∀ x ∈ run.tail, joins x = true :=
  forall_mem_tail_of_isChain (P := fun x => joins x = true) (fun _ _ h => h)
    (List.isChain_of_mem_splitBy h)

/-- Of the runs, all but the first begin with an item that does not join. -/
theorem not_joins_of_mem_head? :
    ∀ run ∈ (l.splitBy fun _ x => joins x).tail, ∀ x ∈ run.head?, joins x = false := by
  refine forall_mem_tail_of_isChain ?_ (List.isChain_getLast_head_splitBy _ l)
  rintro _ run ⟨_, hne, hcut⟩ x hx
  rwa [List.head_of_mem_head? hx] at hcut

end Cut

namespace Predicate

/-! ## Pieces -/

/-- The predicates of calls, cut before every AND. -/
def pieces (pushes : List (Connective × Predicate)) : List (List Predicate) :=
  (pushes.splitBy fun _ c => c.1 = .or).map (·.map Prod.snd)

/-- The condition that the predicates of a piece become. -/
def joined : List Predicate → Predicate
  | [] => .anyOf []
  | [p] => p
  | p :: q :: rest => .anyOf (p.alternatives ++ q :: rest)

/-- A predicate alone, or a group of several. -/
def grouped : List Predicate → Predicate
  | [p] => p
  | ps => .anyOf ps

theorem alternatives_of_atomic {p : Predicate} (h : p.isAnyOf = false) :
    p.alternatives = [p] := by
  cases p with
  | anyOf ps => simp [isAnyOf] at h
  | _ => rfl

/-- One more alternative for a piece. -/
theorem orElse_joined {piece : List Predicate} (h : piece ≠ []) (p : Predicate) :
    (joined piece).orElse p = joined (piece ++ [p]) := by
  match piece with
  | [] => exact absurd rfl h
  | [q] => rfl
  | q :: r :: rest => simp [joined, orElse, alternatives]

/-! ## The run -/

/-- A call leaves all conditions but the last alone. -/
theorem push_concat (c : Connective) (p : Predicate) (ps : List Predicate) (last : Predicate) :
    push c p (ps ++ [last]) =
      ps ++ match c with
        | .and => [last, p]
        | .or => [last.orElse p] := by
  induction ps with
  | nil => rfl
  | cons q ps ih =>
      cases ps with
      | nil => cases c <;> rfl
      | cons r ps => exact congrArg (q :: ·) ih

/-- ORs behind a piece make the piece longer. -/
theorem pushAll_ors {ors : List (Connective × Predicate)} (h : ∀ c ∈ ors, c.1 = .or)
    {piece : List Predicate} (hne : piece ≠ []) (ps : List Predicate) :
    pushAll ors (ps ++ [joined piece]) = ps ++ [joined (piece ++ ors.map Prod.snd)] := by
  induction ors generalizing piece with
  | nil => rw [List.map_nil, List.append_nil]; rfl
  | cons c ors ih =>
      obtain ⟨connective, p⟩ := c
      obtain rfl : connective = .or := h (connective, p) (by simp)
      have hstep : pushAll ((.or, p) :: ors) (ps ++ [joined piece]) =
          pushAll ors (push .or p (ps ++ [joined piece])) := rfl
      rw [hstep, push_concat]
      dsimp only
      rw [orElse_joined hne, ih (fun c hc => h c (by simp [hc])) (by simp)]
      simp

/-- A call that begins a piece adds a condition. -/
theorem push_begin {c : Connective} {ps : List Predicate} (h : ps = [] ∨ c = .and)
    (p : Predicate) : push c p ps = ps ++ [p] := by
  rcases h with rfl | rfl
  · rfl
  · rcases List.eq_nil_or_concat ps with rfl | ⟨init, last, rfl⟩
    · rfl
    · rw [List.concat_eq_append, push_concat]
      simp

theorem pushAll_append (xs ys : List (Connective × Predicate)) (ps : List Predicate) :
    pushAll (xs ++ ys) ps = pushAll ys (pushAll xs ps) :=
  List.foldl_append

/-- Pieces one behind the other add a condition each. -/
theorem pushAll_flatten {runs : List (List (Connective × Predicate))} (ps : List Predicate)
    (hors : ∀ run ∈ runs, run ≠ [] ∧ ∀ c ∈ run.tail, c.1 = .or)
    (hands : ∀ run ∈ if ps = [] then runs.tail else runs, ∀ c ∈ run.head?, c.1 = .and) :
    pushAll runs.flatten ps = ps ++ runs.map fun run => joined (run.map Prod.snd) := by
  induction runs generalizing ps with
  | nil => simp [pushAll]
  | cons run runs ih =>
      obtain ⟨hne, htail⟩ := hors run (by simp)
      obtain ⟨c, ors, rfl⟩ := List.exists_cons_of_ne_nil hne
      -- an OR begins a piece only where no condition stands before it
      have hbegin : ps = [] ∨ c.1 = .and := by
        by_cases hps : ps = []
        · exact .inl hps
        · rw [if_neg hps] at hands
          exact .inr (hands _ List.mem_cons_self c rfl)
      have hrun : pushAll (c :: ors) ps = ps ++ [joined ((c :: ors).map Prod.snd)] := by
        have hstep : pushAll (c :: ors) ps = pushAll ors (push c.1 c.2 ps) := rfl
        have hsingle : [c.2] ≠ [] := List.cons_ne_nil _ _
        rw [hstep, push_begin hbegin]
        exact pushAll_ors htail hsingle ps
      have hlater : ∀ run ∈ runs, ∀ c ∈ run.head?, c.1 = .and := by
        intro run hrun
        refine hands run ?_
        split
        · exact hrun
        · exact List.mem_cons_of_mem _ hrun
      rw [List.flatten_cons, pushAll_append, hrun,
        ih _ (fun run hrun => hors run (by simp [hrun])) (by simpa using hlater)]
      simp

/-- **The conditions after a run of calls**, one for each piece. -/
theorem pushAll_eq (pushes : List (Connective × Predicate)) :
    pushAll pushes [] = (pieces pushes).map joined := by
  let joins (c : Connective × Predicate) : Bool := c.1 = .or
  have hors : ∀ run ∈ pushes.splitBy fun _ c => joins c, run ≠ [] ∧ ∀ c ∈ run.tail, c.1 = .or :=
    fun run hrun => ⟨List.ne_nil_of_mem_splitBy hrun,
      fun c hc => of_decide_eq_true (joins_of_mem_tail hrun c hc)⟩
  have hands : ∀ run ∈ (pushes.splitBy fun _ c => joins c).tail, ∀ c ∈ run.head?, c.1 = .and := by
    rintro run hrun ⟨connective, p⟩ hc
    cases connective with
    | and => rfl
    | or => exact absurd rfl (of_decide_eq_false (not_joins_of_mem_head? run hrun _ hc))
  have hrun := pushAll_flatten [] hors hands
  rw [List.flatten_splitBy, List.nil_append] at hrun
  rw [hrun, pieces, List.map_map]
  rfl

/-! ## Atomic predicates -/

theorem ne_nil_of_mem_pieces {pushes : List (Connective × Predicate)} {piece : List Predicate}
    (h : piece ∈ pieces pushes) : piece ≠ [] := by
  obtain ⟨run, hrun, rfl⟩ := List.mem_map.1 h
  simpa using List.ne_nil_of_mem_splitBy hrun

/-- The pieces hold the predicates in the order of the calls. -/
theorem flatten_pieces (pushes : List (Connective × Predicate)) :
    (pieces pushes).flatten = pushes.map Prod.snd := by
  rw [pieces, ← List.map_flatten, List.flatten_splitBy]

/-- The predicates of the pieces are those of the calls. -/
theorem isAnyOf_of_mem_pieces {pushes : List (Connective × Predicate)}
    (h : ∀ c ∈ pushes, c.2.isAnyOf = false) {piece : List Predicate}
    (hpiece : piece ∈ pieces pushes) : ∀ p ∈ piece, p.isAnyOf = false := by
  intro p hp
  have hmem : p ∈ pushes.map Prod.snd := by
    rw [← flatten_pieces]
    exact List.mem_flatten_of_mem hpiece hp
  obtain ⟨c, hc, rfl⟩ := List.mem_map.1 hmem
  exact h c hc

/-- A piece of atomic predicates becomes the group of its predicates. -/
theorem joined_eq_grouped {piece : List Predicate} (hne : piece ≠ [])
    (h : ∀ p ∈ piece, p.isAnyOf = false) : joined piece = grouped piece := by
  match piece with
  | [] => exact absurd rfl hne
  | [p] => rfl
  | p :: q :: rest =>
      show Predicate.anyOf (p.alternatives ++ q :: rest) = .anyOf (p :: q :: rest)
      rw [alternatives_of_atomic (h p (by simp))]
      rfl

/-- A condition that is a group of atomic predicates is that of a longer piece. -/
theorem eq_of_grouped_eq_anyOf {piece ps : List Predicate} (hne : piece ≠ [])
    (h : ∀ p ∈ piece, p.isAnyOf = false) (heq : grouped piece = .anyOf ps) :
    piece = ps ∧ 2 ≤ ps.length := by
  match piece with
  | [] => exact absurd rfl hne
  | [p] =>
      have hp := h p (by simp)
      rw [show p = .anyOf ps from heq] at hp
      simp [isAnyOf] at hp
  | p :: q :: rest =>
      obtain rfl : p :: q :: rest = ps := by injection heq
      exact ⟨rfl, by simp⟩

theorem alternatives_grouped {piece : List Predicate} (h : ∀ p ∈ piece, p.isAnyOf = false) :
    (grouped piece).alternatives = piece := by
  match piece with
  | [] => rfl
  | [p] => exact alternatives_of_atomic (h p (by simp))
  | p :: q :: rest => rfl

/-! ## Meaning -/

mutual

/-- Whether a predicate holds, given which atomic ones do. -/
def holds (truth : Predicate → Bool) : Predicate → Bool
  | .anyOf ps => holdsAny truth ps
  | p => truth p

/-- Whether one of some alternatives holds. -/
def holdsAny (truth : Predicate → Bool) : List Predicate → Bool
  | [] => false
  | p :: ps => holds truth p || holdsAny truth ps

end

theorem holdsAny_eq (truth : Predicate → Bool) (ps : List Predicate) :
    holdsAny truth ps = ps.any (holds truth) := by
  induction ps with
  | nil => rfl
  | cons p ps ih => rw [holdsAny, ih, List.any_cons]

theorem holds_anyOf (truth : Predicate → Bool) (ps : List Predicate) :
    holds truth (.anyOf ps) = ps.any (holds truth) := by
  rw [holds, holdsAny_eq]

/-- A predicate holds if one of its alternatives does. -/
theorem any_alternatives (truth : Predicate → Bool) (p : Predicate) :
    p.alternatives.any (holds truth) = holds truth p := by
  cases p with
  | anyOf ps => exact (holds_anyOf truth ps).symm
  | _ => simp [alternatives]

/-- The condition of a piece means that one of its predicates holds. -/
theorem holds_joined (truth : Predicate → Bool) (piece : List Predicate) :
    holds truth (joined piece) = piece.any (holds truth) := by
  match piece with
  | [] => rw [joined, holds_anyOf]
  | [p] => simp [joined]
  | p :: q :: rest =>
      rw [joined, holds_anyOf, List.any_append, any_alternatives]
      rfl

/-! ## Runs of calls -/

/-- **The conditions after a run of calls.** If the predicates are atomic, the run is cut
before every AND, a piece of one predicate stands as it is and a longer piece becomes the
group of its predicates; groups have two members at least, none of them a group, and all
predicates are there in the order of the calls. Whatever the predicates, the conditions
mean that in every piece one of the predicates holds. -/
theorem pushAll_pieces (pushes : List (Connective × Predicate)) :
    ((∀ c ∈ pushes, c.2.isAnyOf = false) →
      pushAll pushes [] = (pieces pushes).map grouped ∧
      (∀ ps, .anyOf ps ∈ pushAll pushes [] → 2 ≤ ps.length ∧ ∀ p ∈ ps, p.isAnyOf = false) ∧
      (pushAll pushes []).flatMap alternatives = pushes.map Prod.snd) ∧
    ∀ truth : Predicate → Bool,
      (pushAll pushes []).all (holds truth) =
        (pieces pushes).all fun piece => piece.any (holds truth) := by
  constructor
  · intro hatomic
    have hpieces : ∀ piece ∈ pieces pushes, ∀ p ∈ piece, p.isAnyOf = false :=
      fun piece hpiece => isAnyOf_of_mem_pieces hatomic hpiece
    have hgrouped : pushAll pushes [] = (pieces pushes).map grouped := by
      rw [pushAll_eq]
      exact List.map_congr_left fun piece hpiece =>
        joined_eq_grouped (ne_nil_of_mem_pieces hpiece) (hpieces piece hpiece)
    refine ⟨hgrouped, ?_, ?_⟩
    · intro ps hps
      rw [hgrouped] at hps
      obtain ⟨piece, hpiece, heq⟩ := List.mem_map.1 hps
      obtain ⟨rfl, hlen⟩ :=
        eq_of_grouped_eq_anyOf (ne_nil_of_mem_pieces hpiece) (hpieces piece hpiece) heq
      exact ⟨hlen, hpieces piece hpiece⟩
    · rw [hgrouped, List.flatMap_map, ← flatten_pieces, List.flatMap_def]
      congr 1
      exact (List.map_congr_left fun piece hpiece =>
        alternatives_grouped (hpieces piece hpiece)).trans (List.map_id _)
  · intro truth
    rw [pushAll_eq, List.all_map]
    congr 1
    exact funext (holds_joined truth)

theorem pushAll_pieces_activeAt :
    pushAll (activeAt "from" "until" 5) [] = (pieces (activeAt "from" "until" 5)).map grouped ∧
    ∀ truth : Predicate → Bool,
      (pushAll (activeAt "from" "until" 5) []).all (holds truth) =
        (pieces (activeAt "from" "until" 5)).all fun piece => piece.any (holds truth) := by
  obtain ⟨hatomic, hmeaning⟩ := pushAll_pieces (activeAt "from" "until" 5)
  exact ⟨(hatomic (by decide)).1, hmeaning⟩

end Predicate

end SelectSql
