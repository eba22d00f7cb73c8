import SelectSql.JoinCondition
import SelectSql.Proofs.Operators
import SelectSql.Proofs.Scanning

/-!
# SelectSql.Proofs.JoinConditions

Which texts are conditions of a join, and where any other text breaks off.

Design points:

* **A condition has many texts.** A `Layout` says how a text spells the operator and what
  spacing it has around it; the operands stand as they are.
* **Every part is as long as it can be.** The left side ends where no character of references
  follows, an operator is the longest spelling, a literal ends at a quote that no other quote
  follows. So a text is cut into its parts in one way, and what stands in front of a missing
  part is a text of its own (`Part.Reaches`).
* **A text is a condition or a part of it is missing** (`read_cases`); either description
  determines what the reader answers (`Layout.Fits.read_written`, `Part.Reaches.read_error`).

Main statements: `JoinCondition.ofText_iff`, `JoinCondition.operatorWord_ends_iff`.
-/

namespace SelectSql

/-! ## Characters -/

namespace Text

variable {c : Char}

theorem isOperandChar_of_isReferenceChar (h : isReferenceChar c = true) :
    isOperandChar c = true := by
  rw [isOperandChar, h, Bool.true_or]

/-- The characters of operands are not blank. -/
theorem isBlank_of_isOperandChar (h : isOperandChar c = true) : isBlank c = false := by
  simp only [isOperandChar, isReferenceChar, Bool.or_eq_true, beq_iff_eq] at h
  rcases h with ((((h | rfl) | rfl) | rfl) | rfl) | rfl
  · exact isBlank_of_isNameChar (by rw [isNameChar, h, Bool.true_or])
  all_goals decide

theorem isOperandChar_of_isSpacing (h : isSpacing c = true) : isOperandChar c = false :=
  Bool.eq_false_iff.2 fun hoperand => by
    have hblank := isBlank_of_isOperandChar hoperand
    rw [isBlank_of_isSpacing h] at hblank
    contradiction

theorem isReferenceChar_of_isSpacing (h : isSpacing c = true) : isReferenceChar c = false :=
  Bool.eq_false_iff.2 fun hreference => by
    have hoperand := isOperandChar_of_isReferenceChar hreference
    rw [isOperandChar_of_isSpacing h] at hoperand
    contradiction

theorem Quoted.getLast?_encode (content : List Char) :
    (Quoted.encode content).getLast? = some '\'' := by
  rw [Quoted.encode, ← List.cons_append, List.getLast?_concat]

end Text

namespace JoinCondition

/-! ## Operands -/

/-- The right side of a condition: a quoted literal, or characters of operands. -/
inductive IsOperand : List Char → Prop
  | quoted (content : List Char) : IsOperand (Text.Quoted.encode content)
  | unquoted {cs} (hne : cs ≠ []) (h : ∀ c ∈ cs, Text.isOperandChar c = true) : IsOperand cs

/-- An operand stands in front of a text that does not go on with it: no quote stands behind a
literal, and no character of operands behind others. -/
inductive OperandStands : List Char → List Char → Prop
  | quoted (content : List Char) {rest} (h : rest.head? ≠ some '\'') :
    OperandStands (Text.Quoted.encode content) rest
  | unquoted {cs rest} (hne : cs ≠ []) (h : Text.Run Text.isOperandChar cs rest) :
    OperandStands cs rest

theorem OperandStands.isOperand {right rest : List Char} (h : OperandStands right rest) :
    IsOperand right := by
  cases h with
  | quoted content => exact .quoted content
  | unquoted hne h => exact .unquoted hne h.all

namespace IsOperand

variable {right : List Char}

/-- Spacing ends an operand. -/
theorem stands (h : IsOperand right) {gap : List Char}
    (hgap : ∀ c ∈ gap, Text.isSpacing c = true) : OperandStands right gap := by
  have hspace (c : Char) (hc : c ∈ gap.head?) : Text.isSpacing c = true :=
    hgap c (List.mem_of_mem_head? hc)
  cases h with
  | quoted content => exact .quoted content fun hquote => absurd (hspace _ hquote) (by decide)
  | unquoted hne h =>
      exact .unquoted hne ⟨h, fun c hc => Text.isOperandChar_of_isSpacing (hspace c hc)⟩

/-- An operand begins with a quote or one of its characters. -/
theorem exists_head (h : IsOperand right) :
    ∃ c cs, right = c :: cs ∧ (c = '\'' ∨ Text.isOperandChar c = true) := by
  cases h with
  | quoted content => exact ⟨_, _, rfl, .inl rfl⟩
  | unquoted hne h =>
      obtain ⟨c, cs, rfl⟩ := List.exists_cons_of_ne_nil hne
      exact ⟨c, cs, rfl, .inr (h c List.mem_cons_self)⟩

/-- An operand ends with a quote or one of its characters, and neither is blank. -/
theorem isBlank_getLast? (h : IsOperand right) : ∀ c ∈ right.getLast?, Text.isBlank c = false := by
  intro c hc
  cases h with
  | quoted content =>
      rw [Text.Quoted.getLast?_encode] at hc
      obtain rfl := Option.some.inj hc
      decide
  | unquoted hne h => exact Text.isBlank_of_isOperandChar (h c (List.mem_of_mem_getLast? hc))

/-- What an operand begins with is no part of the spacing or of the operator before it. -/
theorem head_ne (h : IsOperand right) (rest : List Char) :
    ∀ c ∈ (right ++ rest).head?, Text.isSpacing c = false ∧ c ≠ '=' ∧ c ≠ '>' := by
  obtain ⟨d, cs, rfl, hd⟩ := h.exists_head
  intro c hc
  obtain rfl : d = c := by simpa using hc
  rcases hd with rfl | hd
  · decide
  · refine ⟨Bool.eq_false_iff.2 fun hspace => ?_, ?_, ?_⟩
    · rw [Text.isOperandChar_of_isSpacing hspace] at hd
      contradiction
    all_goals
      rintro rfl
      exact absurd hd (by decide)

/-- The operands that begin with a quote are the literals. -/
theorem head?_eq_quote_iff (h : IsOperand right) :
    right.head? = some '\'' ↔ ∃ content, right = Text.Quoted.encode content := by
  constructor
  · intro hquote
    cases h with
    | quoted content => exact ⟨content, rfl⟩
    | unquoted hne h => exact absurd (h _ (List.mem_of_mem_head? hquote)) (by decide)
  · rintro ⟨content, rfl⟩
    rfl

end IsOperand

/-- **The operand in front of a text is read**, with the text behind it. -/
theorem operand?_eq_some_iff {cs right rest : List Char} :
    operand? cs = some (right, rest) ↔ OperandStands right rest ∧ cs = right ++ rest := by
  constructor
  · intro h
    unfold operand? at h
    split at h
    · next cs =>
      obtain ⟨p, hbody, hp⟩ := Option.map_eq_some_iff.1 h
      obtain ⟨rfl, rfl⟩ := Prod.mk.inj hp
      refine ⟨.quoted p.1 (Fragment.head?_of_body? hbody), ?_⟩
      rw [Text.Quoted.eq_of_body? hbody]
      simp [Text.Quoted.encode]
    · split at h
      · contradiction
      · next hne =>
        obtain ⟨rfl, rfl⟩ := Prod.mk.inj (Option.some.inj h)
        exact ⟨.unquoted hne (Text.Run.span Text.isOperandChar cs),
          (List.takeWhile_append_dropWhile ..).symm⟩
  · rintro ⟨h, rfl⟩
    cases h with
    | quoted content hrest =>
        have hbody : Text.Quoted.body? (Text.Quoted.double content ++ ['\''] ++ rest) =
            some (content, rest) := by
          rw [List.append_assoc]
          exact Text.Quoted.body?_double_append content hrest
        rw [Text.Quoted.encode, List.cons_append, operand?, hbody]
        rfl
    | unquoted hne h =>
        obtain ⟨c, cs, rfl⟩ := List.exists_cons_of_ne_nil hne
        have hc : c ≠ '\'' := by
          rintro rfl
          exact absurd (h.all _ List.mem_cons_self) (by decide)
        rw [operand?, h.takeWhile_append, h.dropWhile_append]
        exact fun _ heq => hc (List.cons.inj heq).1

/-! ## Layouts -/

/-- How a text writes a condition: the spelling of the operator, and the spacing before and
behind it. -/
structure Layout where
  before : List Char
  sign : List Char
  behind : List Char

/-- The characters of a condition in a layout. -/
def written (c : JoinCondition) (l : Layout) : List Char :=
  c.left.toList ++ l.before ++ l.sign ++ l.behind ++ c.right.toList

/-- A layout in which a text is a condition. -/
structure Layout.Fits (l : Layout) (c : JoinCondition) : Prop where
  left_ne : c.left.toList ≠ []
  /-- The left side ends where no character of references follows. -/
  left : (c.written l).takeWhile Text.isReferenceChar = c.left.toList
  before : ∀ x ∈ l.before, Text.isSpacing x = true
  sign : c.op.Spells l.sign
  behind : ∀ x ∈ l.behind, Text.isSpacing x = true
  right : IsOperand c.right.toList

/-! ## The reader, part by part -/

/-- Reading behind the right side. -/
def afterRight (input : List Char) (c : JoinCondition) (rest : List Char) :
    Except QueryError JoinCondition :=
  if rest.isEmpty then .ok c else .error (trailing input rest)

/-- Reading behind the operator. -/
def afterOperator (input left : List Char) (op : Operator) (rest : List Char) :
    Except QueryError JoinCondition :=
  match operand? rest with
  | none => .error (invalid input rest)
  | some (right, behind) =>
    afterRight input ⟨String.ofList left, op, String.ofList right⟩
      (behind.dropWhile Text.isSpacing)

/-- Reading behind the left side. -/
def afterLeft (input left rest : List Char) : Except QueryError JoinCondition :=
  match Operator.read? rest with
  | none => .error (invalid input rest)
  | some (op, behind) => afterOperator input left op (behind.dropWhile Text.isSpacing)

theorem read_eq (input : List Char) :
    read input = if (input.takeWhile Text.isReferenceChar).isEmpty then
      .error (invalid input input)
    else afterLeft input (input.takeWhile Text.isReferenceChar)
      ((input.dropWhile Text.isReferenceChar).dropWhile Text.isSpacing) :=
  rfl

section Steps

variable {input left gap rest : List Char}

theorem read_left (hne : left ≠ []) (hleft : Text.Run Text.isReferenceChar left (gap ++ rest))
    (hgap : Text.Run Text.isSpacing gap rest) :
    read (left ++ gap ++ rest) = afterLeft (left ++ gap ++ rest) left rest := by
  have hempty : left.isEmpty = false := by simpa using hne
  rw [read_eq, List.append_assoc, hleft.takeWhile_append, hleft.dropWhile_append,
    hgap.dropWhile_append, hempty, if_neg Bool.false_ne_true]

theorem afterLeft_sign {op : Operator} {sign : List Char} (hsign : op.Stands sign (gap ++ rest))
    (hgap : Text.Run Text.isSpacing gap rest) :
    afterLeft input left (sign ++ gap ++ rest) = afterOperator input left op rest := by
  have hread := Operator.read?_eq_some_iff.2 ⟨sign, hsign, rfl⟩
  rw [afterLeft, List.append_assoc, hread]
  dsimp only
  rw [hgap.dropWhile_append]

theorem afterOperator_right {op : Operator} {right : List Char}
    (hright : OperandStands right (gap ++ rest)) (hgap : Text.Run Text.isSpacing gap rest) :
    afterOperator input left op (right ++ gap ++ rest) =
      afterRight input ⟨String.ofList left, op, String.ofList right⟩ rest := by
  have hread := operand?_eq_some_iff.2 ⟨hright, rfl⟩
  rw [afterOperator, List.append_assoc, hread]
  dsimp only
  rw [hgap.dropWhile_append]

end Steps

/-! ## Missing parts -/

/-- The parts of a condition, in their order. -/
inductive Part
  | left | operator | right | ending

namespace Part

/-- What stands of a condition in front of a part, each piece as long as it can be: `done` is
the text up to the part, spacing included, and `rest` the text from there on. -/
inductive Reaches : Part → List Char → List Char → Prop
  | left (rest : List Char) : Reaches .left [] rest
  | operator {left gap rest} (hne : left ≠ [])
    (hleft : Text.Run Text.isReferenceChar left (gap ++ rest))
    (hgap : Text.Run Text.isSpacing gap rest) : Reaches .operator (left ++ gap) rest
  | right {done op sign gap rest} (hdone : Reaches .operator done (sign ++ gap ++ rest))
    (hsign : Operator.Stands op sign (gap ++ rest)) (hgap : Text.Run Text.isSpacing gap rest) :
    Reaches .right (done ++ sign ++ gap) rest
  | ending {done right gap rest} (hdone : Reaches .right done (right ++ gap ++ rest))
    (hright : OperandStands right (gap ++ rest)) (hgap : Text.Run Text.isSpacing gap rest) :
    Reaches .ending (done ++ right ++ gap) rest

/-- A part does not stand in front of a text. -/
def IsMissing : Part → List Char → Prop
  | .left, rest => ∀ c ∈ rest.head?, Text.isReferenceChar c = false
  | .operator, rest => ∀ op sign, Operator.Spells op sign → ¬ sign <+: rest
  | .right, rest => ∀ right behind, OperandStands right behind → rest ≠ right ++ behind
  | .ending, rest => rest ≠ []

/-- What is reported where a part is missing: the byte at which it would have to start, and the
text; for a condition that is followed by something else, what follows it. -/
def error (part : Part) (done rest : List Char) : QueryError :=
  .parse (String.ofList done).utf8ByteSize <| match part with
    | .ending => s!"Unexpected trailing content: '{String.ofList rest}'"
    | _ => s!"Invalid join condition '{String.ofList (done ++ rest)}'"

end Part

theorem byteLength_eq (cs : List Char) : byteLength cs = (String.ofList cs).utf8ByteSize := by
  induction cs with
  | nil => rfl
  | cons c cs ih =>
      have hcons : String.ofList (c :: cs) = String.singleton c ++ String.ofList cs := by
        rw [String.singleton_eq_ofList, ← String.ofList_append]
        rfl
      rw [byteLength, ih, hcons, String.utf8ByteSize_append, String.utf8ByteSize_singleton]

/-- A position is the length of what stands before it. -/
theorem byteLength_append_sub (done rest : List Char) :
    byteLength (done ++ rest) - byteLength rest = (String.ofList done).utf8ByteSize := by
  simp only [byteLength_eq, String.ofList_append, String.utf8ByteSize_append]
  omega

namespace Part.Reaches

variable {part : Part} {done rest : List Char}

theorem read_operator (h : Reaches .operator done rest) :
    ∃ left, read (done ++ rest) = afterLeft (done ++ rest) left rest := by
  cases h with
  | operator hne hleft hgap => exact ⟨_, read_left hne hleft hgap⟩

theorem read_right (h : Reaches .right done rest) :
    ∃ left op, read (done ++ rest) = afterOperator (done ++ rest) left op rest := by
  cases h with
  | @right done op sign gap rest hdone hsign hgap =>
      obtain ⟨left, hread⟩ := hdone.read_operator
      rw [afterLeft_sign hsign hgap] at hread
      exact ⟨left, op, by simpa using hread⟩

theorem read_ending (h : Reaches .ending done rest) :
    ∃ c, read (done ++ rest) = afterRight (done ++ rest) c rest := by
  cases h with
  | @ending done right gap rest hdone hright hgap =>
      obtain ⟨left, op, hread⟩ := hdone.read_right
      rw [afterOperator_right hright hgap] at hread
      exact ⟨_, by simpa using hread⟩

/-- **Where a part is missing, reading stops.** -/
theorem read_error (h : part.Reaches done rest) (hmissing : part.IsMissing rest) :
    read (done ++ rest) = .error (part.error done rest) := by
  have hinvalid : invalid (done ++ rest) rest = .parse (String.ofList done).utf8ByteSize
      s!"Invalid join condition '{String.ofList (done ++ rest)}'" := by
    rw [invalid, byteLength_append_sub]
  cases part with
  | left =>
      cases h with
      | left rest =>
          have hrun : Text.Run Text.isReferenceChar [] rest := ⟨by simp, hmissing⟩
          have hnone : rest.takeWhile Text.isReferenceChar = [] := hrun.takeWhile_append
          rw [List.nil_append] at hinvalid ⊢
          rw [read_eq, hnone, List.isEmpty_nil, if_pos rfl, hinvalid]
          rfl
  | operator =>
      obtain ⟨left, hread⟩ := h.read_operator
      rw [hread, afterLeft, Operator.read?_eq_none_iff.2 hmissing, hinvalid]
      rfl
  | right =>
      obtain ⟨left, op, hread⟩ := h.read_right
      have hnone : operand? rest = none := by
        rw [Option.eq_none_iff_forall_ne_some]
        rintro ⟨right, behind⟩ hsome
        obtain ⟨hright, heq⟩ := operand?_eq_some_iff.1 hsome
        exact hmissing right behind hright heq
      rw [hread, afterOperator, hnone, hinvalid]
      rfl
  | ending =>
      obtain ⟨c, hread⟩ := h.read_ending
      have hrest : rest.isEmpty = false := by simpa [IsMissing] using hmissing
      rw [hread, afterRight, hrest, if_neg Bool.false_ne_true, trailing, byteLength_append_sub]
      rfl

end Part.Reaches

/-! ## Conditions and their texts -/

namespace Layout.Fits

variable {c : JoinCondition} {l : Layout}

/-- Behind the operator stands neither a sign that it could go on with, nor spacing that is
left over. -/
theorem behind_stands (h : l.Fits c) (gap : List Char) :
    c.op.Stands l.sign (l.behind ++ (c.right.toList ++ gap)) ∧
      Text.Run Text.isSpacing l.behind (c.right.toList ++ gap) := by
  have hright := h.right.head_ne gap
  refine ⟨h.sign.stands ?_, h.behind, fun x hx => (hright x hx).1⟩
  cases hbehind : l.behind with
  | nil => exact fun x hx => (hright x hx).2
  | cons y ys =>
      intro x hx
      obtain rfl : y = x := by simpa using hx
      have hspace := h.behind y (by simp [hbehind])
      constructor
      all_goals
        rintro rfl
        exact absurd hspace (by decide)

/-- The left side ends in front of the operator, whatever stands behind that. -/
theorem left_run (h : l.Fits c) (rest : List Char) :
    Text.Run Text.isReferenceChar c.left.toList (l.before ++ (l.sign ++ rest)) := by
  obtain ⟨x, xs, hsign, -⟩ := h.sign.exists_head
  have hne : l.before ++ l.sign ≠ [] := by simp [hsign]
  have hwritten : Text.Run Text.isReferenceChar c.left.toList
      (l.before ++ l.sign ++ (l.behind ++ c.right.toList)) :=
    .of_takeWhile (by simpa [written] using h.left)
  rw [← List.append_assoc]
  exact (Text.Run.append_iff hne).2 ((Text.Run.append_iff hne).1 hwritten)

/-- The spacing behind the left side ends in front of the operator. -/
theorem before_run (h : l.Fits c) (rest : List Char) :
    Text.Run Text.isSpacing l.before (l.sign ++ rest) := by
  obtain ⟨x, xs, hsign, hx⟩ := h.sign.exists_head
  refine ⟨h.before, fun y hy => ?_⟩
  obtain rfl : x = y := by simpa [hsign] using hy
  exact hx

/-- **A condition is read in every layout that fits**, with or without spacing behind it. -/
theorem read_written (h : l.Fits c) {gap : List Char}
    (hgap : ∀ x ∈ gap, Text.isSpacing x = true) : read (c.written l ++ gap) = .ok c := by
  have hsplit : c.written l ++ gap =
      c.left.toList ++ l.before ++ (l.sign ++ l.behind ++ (c.right.toList ++ gap ++ [])) := by
    simp [written]
  have hleft := h.left_run (l.behind ++ (c.right.toList ++ gap ++ []))
  have hbefore := h.before_run (l.behind ++ (c.right.toList ++ gap ++ []))
  rw [← List.append_assoc l.sign] at hleft hbefore
  obtain ⟨hstands, hbehind⟩ := h.behind_stands (gap ++ [])
  rw [← List.append_assoc c.right.toList] at hstands hbehind
  have hright : OperandStands c.right.toList (gap ++ []) := by
    rw [List.append_nil]
    exact h.right.stands hgap
  rw [hsplit, read_left h.left_ne hleft hbefore, afterLeft_sign hstands hbehind,
    afterOperator_right hright (.nil_right hgap), afterRight, String.ofList_toList,
    String.ofList_toList]
  rfl

end Layout.Fits

namespace Part

/-- A left side is missing, or it stands there with its spacing. -/
theorem left_cases (input : List Char) : IsMissing .left input ∨
    ∃ left gap rest, input = left ++ gap ++ rest ∧ left ≠ [] ∧
      Text.Run Text.isReferenceChar left (gap ++ rest) ∧ Text.Run Text.isSpacing gap rest := by
  obtain ⟨left, behind, rfl, hleft⟩ := Text.Run.exists_span Text.isReferenceChar input
  obtain ⟨gap, rest, rfl, hgap⟩ := Text.Run.exists_span Text.isSpacing behind
  by_cases hne : left = []
  · subst hne
    exact .inl hleft.ends
  · exact .inr ⟨left, gap, rest, (List.append_assoc ..).symm, hne, hleft, hgap⟩

/-- An operator is missing, or it stands there with its spacing. -/
theorem operator_cases (input : List Char) : IsMissing .operator input ∨
    ∃ op sign gap rest, input = sign ++ gap ++ rest ∧ Operator.Stands op sign (gap ++ rest) ∧
      Text.Run Text.isSpacing gap rest := by
  cases hread : Operator.read? input with
  | none => exact .inl (Operator.read?_eq_none_iff.1 hread)
  | some p =>
      obtain ⟨op, behind⟩ := p
      obtain ⟨sign, hsign, rfl⟩ := Operator.read?_eq_some_iff.1 hread
      obtain ⟨gap, rest, rfl, hgap⟩ := Text.Run.exists_span Text.isSpacing behind
      exact .inr ⟨op, sign, gap, rest, (List.append_assoc ..).symm, hsign, hgap⟩

/-- A right side is missing, or it stands there with its spacing. -/
theorem right_cases (input : List Char) : IsMissing .right input ∨
    ∃ right gap rest, input = right ++ gap ++ rest ∧ OperandStands right (gap ++ rest) ∧
      Text.Run Text.isSpacing gap rest := by
  cases hread : operand? input with
  | none =>
      refine .inl fun right behind hstands heq => ?_
      rw [operand?_eq_some_iff.2 ⟨hstands, heq⟩] at hread
      contradiction
  | some p =>
      obtain ⟨right, behind⟩ := p
      obtain ⟨hright, rfl⟩ := operand?_eq_some_iff.1 hread
      obtain ⟨gap, rest, rfl, hgap⟩ := Text.Run.exists_span Text.isSpacing behind
      exact .inr ⟨right, gap, rest, (List.append_assoc ..).symm, hright, hgap⟩

end Part

/-- What stands up to the end of a text is a condition, if each part is as long as it can be. -/
theorem Layout.fits_of_runs {left before sign behind right gap : List Char} {op : Operator}
    (hne : left ≠ [])
    (hleft : Text.Run Text.isReferenceChar left (before ++ (sign ++ behind ++ (right ++ gap))))
    (hbefore : ∀ x ∈ before, Text.isSpacing x = true) (hsign : op.Spells sign)
    (hbehind : ∀ x ∈ behind, Text.isSpacing x = true) (hright : IsOperand right) :
    Layout.Fits ⟨before, sign, behind⟩ ⟨String.ofList left, op, String.ofList right⟩ where
  left_ne := by simpa using hne
  left := by
    obtain ⟨x, xs, rfl, -⟩ := hsign.exists_head
    have hrun : Text.Run Text.isReferenceChar left
        (before ++ (x :: xs ++ (behind ++ right)) ++ gap) := by simpa using hleft
    have htext := ((Text.Run.append_iff (by simp)).1 hrun).takeWhile_append
    simpa [written] using htext
  before := hbefore
  sign := hsign
  behind := hbehind
  right := by simpa using hright

/-- **A text is a condition, or a part of it is missing.** -/
theorem read_cases (input : List Char) :
    (∃ part done rest, input = done ++ rest ∧ Part.Reaches part done rest ∧
      part.IsMissing rest) ∨
      ∃ c l gap, Layout.Fits l c ∧ input = c.written l ++ gap ∧
        ∀ x ∈ gap, Text.isSpacing x = true := by
  rcases Part.left_cases input with hmissing | ⟨left, before, rest, rfl, hne, hleft, hbefore⟩
  · exact .inl ⟨.left, [], input, rfl, .left input, hmissing⟩
  have hoperator : Part.Reaches .operator (left ++ before) rest := .operator hne hleft hbefore
  rcases Part.operator_cases rest with hmissing | ⟨op, sign, behind, rest, rfl, hsign, hbehind⟩
  · exact .inl ⟨.operator, _, _, rfl, hoperator, hmissing⟩
  have hright : Part.Reaches .right (left ++ before ++ sign ++ behind) rest :=
    .right hoperator hsign hbehind
  rcases Part.right_cases rest with hmissing | ⟨right, gap, rest, rfl, hoperand, hgap⟩
  · exact .inl ⟨.right, _, _, by simp, hright, hmissing⟩
  have hending : Part.Reaches .ending (left ++ before ++ sign ++ behind ++ right ++ gap) rest :=
    .ending hright hoperand hgap
  by_cases hrest : rest = []
  · subst hrest
    rw [List.append_nil] at hleft
    exact .inr ⟨_, ⟨before, sign, behind⟩, gap, Layout.fits_of_runs hne hleft hbefore.all
      hsign.spelled hbehind.all hoperand.isOperand, by simp [written], hgap.all⟩
  · exact .inl ⟨.ending, _, _, by simp, hending, hrest⟩

/-! ## Texts of conditions -/

variable {c : JoinCondition} {l : Layout}

/-- No blank stands in front of a condition. -/
theorem Layout.Fits.isBlank_head? (h : l.Fits c) (rest : List Char) :
    ∀ x ∈ (c.left.toList ++ rest).head?, Text.isBlank x = false := by
  obtain ⟨y, ys, hleft⟩ := List.exists_cons_of_ne_nil h.left_ne
  intro x hx
  obtain rfl : y = x := by simpa [hleft] using hx
  have hy : Text.isReferenceChar y = true := (h.left_run []).all y (by simp [hleft])
  exact Text.isBlank_of_isOperandChar (Text.isOperandChar_of_isReferenceChar hy)

/-- Nothing is trimmed off a condition. -/
theorem Layout.Fits.trimmed (h : l.Fits c) : Text.Trimmed Text.isBlank (c.written l) := by
  constructor
  · have hfirst := h.isBlank_head? (l.before ++ l.sign ++ l.behind ++ c.right.toList)
    simpa [written] using hfirst
  · obtain ⟨y, ys, hright, -⟩ := h.right.exists_head
    intro x hx
    rw [written, List.getLast?_append_of_ne_nil _ (by simp [hright])] at hx
    exact h.right.isBlank_getLast? x hx

/-- Spacing behind a trimmed text is none. -/
theorem eq_nil_of_trimmed {text gap : List Char} (h : Text.Trimmed Text.isBlank (text ++ gap))
    (hgap : ∀ x ∈ gap, Text.isSpacing x = true) : gap = [] := by
  rcases List.eq_nil_or_concat gap with rfl | ⟨gap, x, rfl⟩
  · rfl
  · rw [List.concat_eq_append] at h hgap
    have hx : Text.isBlank x = false := h.last x (by simp)
    rw [Text.isBlank_of_isSpacing (hgap x (by simp))] at hx
    contradiction

theorem trimmed_trimChars (cs : List Char) :
    Text.Trimmed Text.isBlank (Text.trimChars cs) := by
  obtain ⟨-, -, -, -, -, htrim⟩ := Text.exists_trimBy Text.isBlank cs
  exact htrim

theorem ofText_eq_read (s : String) : ofText s = read (Text.trim s).toList := by
  rw [Text.toList_trim, ofText]

theorem Layout.Fits.read_eq_ok (h : l.Fits c) : read (c.written l) = .ok c := by
  have hread := h.read_written (List.forall_mem_nil _)
  rwa [List.append_nil] at hread

/-- A trimmed text is a condition in one of its layouts, or a part of it is missing. -/
theorem trim_cases (s : String) :
    (∃ part done rest, (Text.trim s).toList = done ++ rest ∧ Part.Reaches part done rest ∧
      part.IsMissing rest) ∨
      ∃ c l, Layout.Fits l c ∧ (Text.trim s).toList = c.written l := by
  refine (read_cases (Text.trim s).toList).imp_right ?_
  rintro ⟨c, l, gap, hfits, htext, hgap⟩
  have htrim : Text.Trimmed Text.isBlank (c.written l ++ gap) := by
    rw [← htext, Text.toList_trim]
    exact trimmed_trimChars s.toList
  obtain rfl := eq_nil_of_trimmed htrim hgap
  exact ⟨c, l, hfits, by simpa using htext⟩

/-- **A text is a condition exactly if it has a layout that fits.** -/
theorem ofText_eq_ok_iff {s : String} :
    ofText s = .ok c ↔ ∃ l : Layout, l.Fits c ∧ (Text.trim s).toList = c.written l := by
  rw [ofText_eq_read]
  constructor
  · intro hread
    rcases trim_cases s with ⟨part, done, rest, htext, hreaches, hmissing⟩ | ⟨c', l, hfits, htext⟩
    · rw [htext, hreaches.read_error hmissing] at hread
      contradiction
    · rw [htext, hfits.read_eq_ok] at hread
      obtain rfl := Except.ok.inj hread
      exact ⟨l, hfits, htext⟩
  · rintro ⟨l, hfits, htext⟩
    rw [htext, hfits.read_eq_ok]

/-- **Any other text is refused where the first part is missing.** -/
theorem ofText_eq_error_iff {s : String} {e : QueryError} :
    ofText s = .error e ↔ ∃ part done rest, (Text.trim s).toList = done ++ rest ∧
      Part.Reaches part done rest ∧ part.IsMissing rest ∧ e = part.error done rest := by
  rw [ofText_eq_read]
  constructor
  · intro hread
    rcases trim_cases s with ⟨part, done, rest, htext, hreaches, hmissing⟩ | ⟨c, l, hfits, htext⟩
    · rw [htext, hreaches.read_error hmissing] at hread
      exact ⟨part, done, rest, htext, hreaches, hmissing, (Except.error.inj hread).symm⟩
    · rw [htext, hfits.read_eq_ok] at hread
      contradiction
  · rintro ⟨part, done, rest, htext, hreaches, hmissing, rfl⟩
    rw [htext, hreaches.read_error hmissing]

/-- **Which texts are conditions, and where any other text breaks off.** Trimmed, a text is read
as a condition exactly if it is its left side, a spelling of its operator and its right side,
with or without spacing around the operator: the left side is the longest run of letters,
digits, underscores, dots and braces in front of the text, and the right side a quoted literal
or a run of these characters and minus signs. Any other text is refused with a position, the
byte at which the first missing part would have to start: a left side, an operator, a right side
or the end of the text, each behind the parts before it and their spacing. -/
theorem ofText_iff (s : String) :
    (∀ c, ofText s = .ok c ↔ ∃ l : Layout, l.Fits c ∧ (Text.trim s).toList = c.written l) ∧
    (∀ e, ofText s = .error e ↔ ∃ part done rest, (Text.trim s).toList = done ++ rest ∧
      Part.Reaches part done rest ∧ part.IsMissing rest ∧ e = part.error done rest) :=
  ⟨fun _ => ofText_eq_ok_iff, fun _ => ofText_eq_error_iff⟩

/-! ## Operator words -/

/-- Behind an operator, a word is the right side exactly if all its characters are those of
operands. -/
theorem afterOperator_word_iff {input left word : List Char} {op : Operator} (hne : word ≠ [])
    (hword : ∀ x ∈ word, Text.isSpacing x = false ∧ x ≠ '\'') :
    afterOperator input left op word = .ok c ↔ (∀ x ∈ word, Text.isOperandChar x = true) ∧
      c = ⟨String.ofList left, op, String.ofList word⟩ := by
  constructor
  · intro hread
    cases hoperand : operand? word with
    | none =>
        rw [afterOperator, hoperand] at hread
        contradiction
    | some p =>
        obtain ⟨right, behind⟩ := p
        rw [afterOperator, hoperand] at hread
        obtain ⟨hstands, rfl⟩ := operand?_eq_some_iff.1 hoperand
        have hdrop : behind.dropWhile Text.isSpacing = behind :=
          Text.dropWhile_eq_self fun x hx =>
            (hword x (List.mem_append_right _ (List.mem_of_mem_head? hx))).1
        dsimp only at hread
        rw [afterRight, hdrop] at hread
        split at hread
        · next hempty =>
          obtain rfl : behind = [] := by simpa using hempty
          rw [List.append_nil] at hword ⊢
          cases hstands with
          | quoted content => exact absurd rfl (hword '\'' List.mem_cons_self).2
          | unquoted _ hrun => exact ⟨hrun.all, (Except.ok.inj hread).symm⟩
        · contradiction
  · rintro ⟨hall, rfl⟩
    have hstands : OperandStands word ([] ++ []) := .unquoted hne (.nil_right hall)
    have hread : afterOperator input left op (word ++ [] ++ []) =
        afterRight input ⟨String.ofList left, op, String.ofList word⟩ [] :=
      afterOperator_right hstands (.nil_right (List.forall_mem_nil _))
    simpa [afterRight] using hread

/-- A word that begins with an operator word is the operator and the right side behind it,
exactly if the rest of the word could be a right side of its own. -/
theorem Layout.Fits.ofText_word_iff (h : l.Fits c) (hop : c.op.isPattern = true)
    {word : List Char} (hne : word ≠ [])
    (hword : ∀ x ∈ word, Text.isBlank x = false ∧ x ≠ '\'') {c' : JoinCondition} :
    ofText (String.ofList (c.left.toList ++ l.before ++ l.sign ++ word)) = .ok c' ↔
      (∀ x ∈ word, Text.isOperandChar x = true) ∧ c' = ⟨c.left, c.op, String.ofList word⟩ := by
  have htrim : Text.Trimmed Text.isBlank (c.left.toList ++ l.before ++ l.sign ++ word) := by
    constructor
    · have hfirst := h.isBlank_head? (l.before ++ l.sign ++ word)
      simpa using hfirst
    · intro x hx
      rw [List.getLast?_append_of_ne_nil _ hne] at hx
      exact (hword x (List.mem_of_mem_getLast? hx)).1
  have hspacing : ∀ x ∈ word, Text.isSpacing x = false ∧ x ≠ '\'' := fun x hx =>
    ⟨Bool.eq_false_iff.2 fun hspace => by
      have hblank := Text.isBlank_of_isSpacing hspace
      rw [(hword x hx).1] at hblank
      contradiction, (hword x hx).2⟩
  have hgap : Text.Run Text.isSpacing [] word :=
    ⟨List.forall_mem_nil _, fun x hx => (hspacing x (List.mem_of_mem_head? hx)).1⟩
  have hsign : c.op.Stands l.sign ([] ++ word) := h.sign.stands_of_isPattern hop word
  have hread := read_left h.left_ne (h.left_run word) (h.before_run word)
  rw [← List.append_nil l.sign, afterLeft_sign hsign hgap] at hread
  rw [ofText_eq_read, Text.toList_trim, String.toList_ofList, Text.trimChars_eq_trimBy,
    Text.trimBy_eq_self htrim]
  simp only [List.append_nil, List.append_assoc] at hread ⊢
  rw [hread, afterOperator_word_iff hne hspacing, String.ofList_toList]

/-- **Where an operator word ends.** Behind the word of a pattern operator stands spacing or a
quote exactly if there is spacing or the right side is a literal. Nothing else marks the end of
the word: it is also read in front of a longer word, and what is left of that is the right side
if all its characters are those of operands. -/
theorem operatorWord_ends_iff {s : String} (hop : c.op.isPattern = true) (hfits : l.Fits c)
    (htext : (Text.trim s).toList = c.written l) :
    ofText s = .ok c ∧
      ((∃ x ∈ (l.behind ++ c.right.toList).head?, Text.isSpacing x = true ∨ x = '\'') ↔
        l.behind ≠ [] ∨ ∃ content, c.right.toList = Text.Quoted.encode content) ∧
      ∀ word ≠ [], (∀ x ∈ word, Text.isBlank x = false ∧ x ≠ '\'') → ∀ c',
        (ofText (String.ofList (c.left.toList ++ l.before ++ l.sign ++ word)) = .ok c' ↔
          (∀ x ∈ word, Text.isOperandChar x = true) ∧
            c' = ⟨c.left, c.op, String.ofList word⟩) := by
  refine ⟨ofText_eq_ok_iff.2 ⟨l, hfits, htext⟩, ?_,
    fun word hne hword c' => hfits.ofText_word_iff hop hne hword⟩
  rw [← hfits.right.head?_eq_quote_iff]
  cases hbehind : l.behind with
  | cons x xs =>
      have hx : Text.isSpacing x = true := hfits.behind x (by simp [hbehind])
      exact iff_of_true ⟨x, rfl, .inl hx⟩ (.inl (List.cons_ne_nil x xs))
  | nil =>
      have hnospace := hfits.right.head_ne []
      rw [List.append_nil] at hnospace
      rw [List.nil_append, or_iff_right (not_not_intro rfl)]
      constructor
      · rintro ⟨x, hx, hspace | rfl⟩
        · rw [(hnospace x hx).1] at hspace
          contradiction
        · exact hx
      · exact fun hquote => ⟨_, hquote, .inr rfl⟩

theorem operatorWord_ends_iff_literal :
    ∃ (c : JoinCondition) (l : Layout), c.op.isPattern = true ∧ l.Fits c ∧
      (Text.trim " a.b NoT\tlIke'%x' ").toList = c.written l ∧
      ofText " a.b NoT\tlIke'%x' " = .ok c ∧
      ∃ x ∈ (l.behind ++ c.right.toList).head?, Text.isSpacing x = true ∨ x = '\'' := by
  have hsign : Operator.Spells .notLike (['N', 'o', 'T'] ++ ['\t'] ++ ['l', 'I', 'k', 'e']) :=
    .notLike (by decide) (by decide) (by decide) (by decide)
  have hfits : Layout.Fits ⟨[' '], ['N', 'o', 'T', '\t', 'l', 'I', 'k', 'e'], []⟩
      ⟨"a.b", .notLike, "'%x'"⟩ :=
    ⟨by decide, by decide, by decide, hsign, by decide, .quoted ['%', 'x']⟩
  have htext : (Text.trim " a.b NoT\tlIke'%x' ").toList = written ⟨"a.b", .notLike, "'%x'"⟩
      ⟨[' '], ['N', 'o', 'T', '\t', 'l', 'I', 'k', 'e'], []⟩ := by decide
  obtain ⟨hread, hends, -⟩ := operatorWord_ends_iff rfl hfits htext
  exact ⟨_, _, rfl, hfits, htext, hread, hends.2 (.inr ⟨['%', 'x'], rfl⟩)⟩

/-- A word that merely begins with LIKE is LIKE and a right side. -/
theorem operatorWord_ends_likes :
    ofText "a likes" = .ok ⟨"a", .like, "s"⟩ ∧
    ¬ ∀ (s : String) (c : JoinCondition) (l : Layout), ofText s = .ok c →
      c.op.isPattern = true → l.Fits c → (Text.trim s).toList = c.written l →
        ∃ x ∈ (l.behind ++ c.right.toList).head?, Text.isSpacing x = true ∨ x = '\'' := by
  refine ⟨by decide, fun h => ?_⟩
  have hfits : Layout.Fits ⟨[' '], ['l', 'i', 'k', 'e'], []⟩ ⟨"a", .like, "s"⟩ :=
    ⟨by decide, by decide, by decide, .like (by decide), by decide,
      .unquoted (by decide) (by decide)⟩
  obtain ⟨x, hx, hends⟩ := h "a likes" ⟨"a", .like, "s"⟩ _ (by decide) rfl hfits (by decide)
  obtain rfl : 's' = x := by simpa using hx
  exact absurd hends (by decide)

end JoinCondition

end SelectSql
