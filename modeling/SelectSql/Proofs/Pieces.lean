import SelectSql.Proofs.Braces
import Mathlib.Data.List.Forall2
import Mathlib.Tactic.Push

/-!
# SelectSql.Proofs.Pieces

Text that is put together from pieces: characters, literals, the places of values, and table
names in braces. Unlike the walks of `SelectSql.Proofs.Braces`, which know a table only by the
characters of names, a piece may hold any name that has neither quotes nor braces, so it tells
what becomes of the names that the scanner does not take for a placeholder.

Design points:

* **Trimming and collapsing work on whole pieces** (`Piece.flatMap_template_trim`,
  `Piece.flatMap_template_squeeze`). A literal stays as it is; of a name in braces the runs of
  blanks are collapsed, which changes no name that the scanner reads.
* **The scanner reads ahead behind a quote only**, so the equations of expanding carry the text
  behind a literal along (`Fragment.Expands`). With it each piece has one equation.

Main statement: names in braces are expanded exactly if they are names for the scanner
(`Piece.replaceTables_scan_write`).
-/

namespace SelectSql

/-! ## Names -/

/-- A text that the scanner reads as a name in braces. -/
def Text.IsName (cs : List Char) : Prop :=
  cs ≠ [] ∧ ∀ c ∈ cs, Text.isNameChar c = true

instance (cs : List Char) : Decidable (Text.IsName cs) :=
  inferInstanceAs (Decidable (_ ∧ _))

/-- What is read in braces is a name. -/
theorem Fragment.isName_of_tableName? {cs name rest : List Char}
    (h : tableName? cs = some (name, rest)) : Text.IsName name := by
  refine ⟨?_, isNameChar_of_tableName? h⟩
  unfold tableName? at h
  split at h
  · obtain ⟨rfl, -⟩ := Prod.mk.inj (Option.some.inj h)
    exact List.cons_ne_nil _ _
  · simp at h

/-- How a name may be written: as it is, or with its runs of blanks collapsed. -/
def Written (name written : List Char) : Prop :=
  written = name ∨ written = Fragment.squeezeText false false name

namespace Fragment

/-- A character behind collapsing is a space or was there before. -/
theorem mem_of_mem_squeezeText {inside afterSpace : Bool} {c : Char} {cs : List Char}
    (h : c ∈ squeezeText inside afterSpace cs) : c = ' ' ∨ c ∈ cs := by
  induction cs generalizing inside afterSpace with
  | nil => exact .inr h
  | cons d cs ih =>
      rw [squeezeText_cons] at h
      split at h
      · split at h
        · exact (ih h).imp_right (List.mem_cons_of_mem d)
        · rcases List.mem_cons.1 h with rfl | h
          · exact .inl rfl
          · exact (ih h).imp_right (List.mem_cons_of_mem d)
      · rcases List.mem_cons.1 h with rfl | h
        · exact .inr List.mem_cons_self
        · exact (ih h).imp_right (List.mem_cons_of_mem d)

/-- Where no blank stands, collapsing changes nothing. -/
theorem squeezeText_eq_self {cs : List Char} (h : ∀ c ∈ cs, c ≠ '\'' ∧ Text.isBlank c = false) :
    squeezeText false false cs = cs := by
  by_cases hne : cs = []
  · rw [hne]
    rfl
  · simpa using squeezeText_solid hne h false []

/-- Where a blank stands, collapsing leaves a space. -/
theorem space_mem_squeezeText {cs : List Char} (hquote : ∀ c ∈ cs, c ≠ '\'') {b : Char}
    (hb : b ∈ cs) (hblank : Text.isBlank b = true) : ' ' ∈ squeezeText false false cs := by
  induction cs with
  | nil => simp at hb
  | cons c cs ih =>
      obtain ⟨hc, hcs⟩ := List.forall_mem_cons.1 hquote
      cases hcb : Text.isBlank c with
      | true =>
          rw [squeezeText_blank hcb]
          exact List.mem_cons_self
      | false =>
          rw [squeezeText_of_not_blank hcb, Text.toggle_of_ne hc]
          rcases List.mem_cons.1 hb with rfl | hb
          · rw [hcb] at hblank
            contradiction
          · exact List.mem_cons_of_mem c (ih hcs hb)

/-- Collapsing twice is collapsing once. -/
theorem squeezeText_squeezeText {cs : List Char} (h : ∀ c ∈ cs, c ≠ '\'') (afterSpace : Bool) :
    squeezeText false afterSpace (squeezeText false afterSpace cs) =
      squeezeText false afterSpace cs := by
  induction cs generalizing afterSpace with
  | nil => rfl
  | cons c cs ih =>
      obtain ⟨hc, hcs⟩ := List.forall_mem_cons.1 h
      cases hb : Text.isBlank c with
      | true =>
          have hspace : Text.isBlank ' ' = true := by decide
          rw [squeezeText_blank hb]
          cases afterSpace with
          | true => exact ih hcs true
          | false =>
              rw [if_neg Bool.false_ne_true, squeezeText_blank hspace, if_neg Bool.false_ne_true,
                ih hcs true]
      | false =>
          rw [squeezeText_of_not_blank hb, Text.toggle_of_ne hc, squeezeText_of_not_blank hb,
            Text.toggle_of_ne hc, ih hcs false]

end Fragment

namespace Written

variable {name written : List Char}

theorem refl (name : List Char) : Written name name :=
  .inl rfl

/-- A name that is written in one of its forms is collapsed to one of them. -/
theorem squeeze (h : Written name written) (hquote : ∀ c ∈ name, c ≠ '\'') :
    Written name (Fragment.squeezeText false false written) := by
  rcases h with rfl | rfl
  · exact .inr rfl
  · exact .inr (Fragment.squeezeText_squeezeText hquote false)

/-- A name that the scanner reads has one form, and no other name has a form like it. -/
theorem isName_iff (h : Written name written) (hquote : ∀ c ∈ name, c ≠ '\'') :
    Text.IsName written ↔ Text.IsName name := by
  rcases h with rfl | rfl
  · exact Iff.rfl
  · by_cases hsolid : ∀ c ∈ name, Text.isBlank c = false
    · rw [Fragment.squeezeText_eq_self fun c hc => ⟨hquote c hc, hsolid c hc⟩]
    · -- a blank leaves a space, and neither is a character of names
      push Not at hsolid
      obtain ⟨b, hb, hblank⟩ := hsolid
      rw [ne_eq, Bool.not_eq_false] at hblank
      have hspace := Fragment.space_mem_squeezeText hquote hb hblank
      refine iff_of_false (fun hw => ?_) fun hn => ?_
      · exact absurd (hw.2 ' ' hspace) (by decide)
      · rw [Text.isBlank_of_isNameChar (hn.2 b hb)] at hblank
        contradiction

/-- Names are read by the scanner in the forms in which they are written. -/
theorem forall_isName_iff {names writtens : List (List Char)}
    (h : List.Forall₂ Written names writtens) (hquote : ∀ name ∈ names, ∀ c ∈ name, c ≠ '\'') :
    (∀ written ∈ writtens, Text.IsName written) ↔ ∀ name ∈ names, Text.IsName name := by
  induction h with
  | nil => simp
  | cons hname _ ih =>
      obtain ⟨hfirst, hrest⟩ := List.forall_mem_cons.1 hquote
      rw [List.forall_mem_cons, List.forall_mem_cons, hname.isName_iff hfirst, ih hrest]

end Written

/-! ## Pieces -/

/-- A piece of a text. -/
inductive Piece
  | char (c : Char)
  | literal (content : List Char)
  | value (v : Value)
  /-- A name in braces. -/
  | table (name : List Char)

namespace Piece

open Template (ofChars)

/-- The spelling of a piece. -/
def template : Piece → Template
  | .char c => [.char c]
  | .literal content => ofChars (Text.Quoted.encode content)
  | .value v => [.value v]
  | .table name => ofChars (Item.braced name)

/-- The items of a piece: of a literal its characters. -/
def items : Piece → List Item
  | .char c => [.char c]
  | .literal content => (Text.Quoted.encode content).map .char
  | .value v => [.value v]
  | .table name => [.table name]

/-- The name of a table. -/
def table? : Piece → Option (List Char)
  | .table name => some name
  | _ => none

/-- Quotes and braces stand where they belong: around literals and names. -/
def Sound : Piece → Prop
  | .char c => Text.IsOrdinary c
  | .table name => ∀ c ∈ name, Text.IsOrdinary c
  | _ => True

/-- Whether a piece is a blank. -/
def isBlank : Piece → Bool
  | .char c => Text.isBlank c
  | _ => false

theorem filterMap_table?_items (ps : List Piece) :
    (ps.flatMap items).filterMap Item.table? = ps.filterMap table? := by
  induction ps with
  | nil => rfl
  | cons p ps ih =>
      rw [List.flatMap_cons, List.filterMap_append, ih]
      cases p with
      | literal content =>
          rw [items, Item.filterMap_table?_map_char]
          rfl
      | _ => rfl

/-! ## Trimming and collapsing -/

/-- A blank piece is a blank character. -/
theorem isBlank_of_mem_template {p : Piece} (h : isBlank p = true) :
    ∀ x ∈ template p, x.isBlank = true := by
  intro x hx
  cases p with
  | char c =>
      obtain rfl := List.mem_singleton.1 hx
      exact h
  | _ => simp [isBlank] at h

/-- A piece that is no blank neither begins nor ends with one. -/
theorem trimmed_template {p : Piece} (h : isBlank p = false) :
    template p ≠ [] ∧ Text.Trimmed Symbol.isBlank (template p) := by
  have hquote : Symbol.isBlank (.char '\'') = false := by decide
  have hopen : Symbol.isBlank (.char '\x7b') = false := by decide
  have hclose : Symbol.isBlank (.char '\x7d') = false := by decide
  cases p with
  | char c =>
      refine ⟨List.cons_ne_nil _ _, fun x hx => ?_, fun x hx => ?_⟩ <;>
      · obtain rfl : Symbol.char c = x := by simpa [template] using hx
        exact h
  | literal content =>
      refine ⟨by simp [template, Text.Quoted.encode], ?_⟩
      have hbetween := Text.Trimmed.between hquote hquote (ofChars (Text.Quoted.double content))
      simpa [template, Text.Quoted.encode, ofChars] using hbetween
  | value v =>
      refine ⟨List.cons_ne_nil _ _, fun x hx => ?_, fun x hx => ?_⟩ <;>
      · obtain rfl : Symbol.value v = x := by simpa [template] using hx
        rfl
  | table name =>
      refine ⟨by simp [template, Item.braced], ?_⟩
      have hbetween := Text.Trimmed.between hopen hclose (ofChars name)
      simpa [template, Item.braced, ofChars] using hbetween

/-- Trimming drops whole pieces. -/
theorem flatMap_template_trim (ps : List Piece) :
    (Text.trimBy isBlank ps).flatMap template = Template.trim (ps.flatMap template) :=
  (Text.trimBy_flatMap (fun _ => isBlank_of_mem_template) (fun _ => trimmed_template) ps).symm

/-- Writes one space for every run of blanks between pieces and in names. -/
def squeeze : (afterSpace : Bool) → List Piece → List Piece
  | _, [] => []
  | afterSpace, .char c :: ps =>
    if Text.isBlank c then
      if afterSpace then squeeze true ps else .char ' ' :: squeeze true ps
    else .char c :: squeeze false ps
  | _, .table name :: ps => .table (Fragment.squeezeText false false name) :: squeeze false ps
  | _, p :: ps => p :: squeeze false ps

end Piece

namespace Template

/-- The content of a literal stays. -/
theorem squeeze_double (s : List Char) (afterSpace : Bool) (t : Template) :
    squeeze true afterSpace (ofChars (Text.Quoted.double s) ++ .char '\'' :: t) =
      ofChars (Text.Quoted.double s) ++ .char '\'' :: squeeze false false t := by
  have hquote : Text.isBlank '\'' = false := by decide
  induction s generalizing afterSpace with
  | nil => simp [squeeze, Text.Quoted.double, ofChars]
  | cons c s ih =>
      by_cases hc : c = '\''
      · subst hc
        simp [squeeze, Text.Quoted.double, hquote, ih]
      · simp [squeeze, Text.Quoted.double, Text.toggle_of_ne hc, hc, ih]

/-- A literal stays, and what follows it does not follow a space. -/
theorem squeeze_encode (s : List Char) (afterSpace : Bool) (t : Template) :
    squeeze false afterSpace (ofChars (Text.Quoted.encode s) ++ t) =
      ofChars (Text.Quoted.encode s) ++ squeeze false false t := by
  have hquote : Text.isBlank '\'' = false := by decide
  have hsplit (t : Template) : ofChars (Text.Quoted.encode s) ++ t =
      .char '\'' :: (ofChars (Text.Quoted.double s) ++ .char '\'' :: t) := by
    simp [Text.Quoted.encode, ofChars]
  rw [hsplit, hsplit, squeeze, hquote, Bool.and_false, if_neg Bool.false_ne_true,
    Text.toggle_quote, Bool.not_false, squeeze_double]

/-- A text without quotes is collapsed by itself, if a sign follows it. -/
theorem squeeze_ofChars_append {cs : List Char} (h : ∀ c ∈ cs, c ≠ '\'') {sign : Char}
    (hsign : sign ≠ '\'') (hblank : Text.isBlank sign = false) (afterSpace : Bool)
    (t : Template) :
    squeeze false afterSpace (ofChars cs ++ .char sign :: t) =
      ofChars (Fragment.squeezeText false afterSpace cs) ++
        .char sign :: squeeze false false t := by
  induction cs generalizing afterSpace with
  | nil => simp [squeeze, hblank, Text.toggle_of_ne hsign, ofChars]
  | cons c cs ih =>
      obtain ⟨hc, hcs⟩ := List.forall_mem_cons.1 h
      rw [ofChars_cons, List.cons_append, squeeze, Fragment.squeezeText_cons, ih hcs true,
        Text.toggle_of_ne hc, ih hcs false]
      split
      · split <;> rfl
      · rfl

end Template

namespace Piece

open Template (ofChars)

theorem template_table (name : List Char) (t : Template) :
    template (.table name) ++ t = .char '\x7b' :: (ofChars name ++ .char '\x7d' :: t) := by
  simp [template, Item.braced, ofChars]

/-- Collapsing keeps the pieces apart. -/
theorem flatMap_template_squeeze {ps : List Piece} (h : ∀ p ∈ ps, Sound p) (afterSpace : Bool) :
    (squeeze afterSpace ps).flatMap template =
      Template.squeeze false afterSpace (ps.flatMap template) := by
  have hopen : Text.isBlank '\x7b' = false := by decide
  have hclose : Text.isBlank '\x7d' = false := by decide
  induction ps generalizing afterSpace with
  | nil => cases afterSpace <;> rfl
  | cons p ps ih =>
      obtain ⟨hp, hps⟩ := List.forall_mem_cons.1 h
      rw [List.flatMap_cons]
      cases p with
      | char c =>
          have hquote : c ≠ '\'' := hp.1
          rw [squeeze, template, List.singleton_append, Template.squeeze, Text.toggle_of_ne hquote,
            Bool.not_false, Bool.true_and, ← ih hps true, ← ih hps false]
          split
          · split <;> rfl
          · rfl
      | literal content =>
          rw [squeeze, List.flatMap_cons, ih hps false, template, Template.squeeze_encode]
          all_goals simp
      | value v => exact congrArg (Symbol.value v :: ·) (ih hps false)
      | table name =>
          have hquote : ∀ c ∈ name, c ≠ '\'' := fun c hc => (hp c hc).1
          rw [squeeze, List.flatMap_cons, template_table, template_table, ih hps false,
            Template.squeeze, hopen, Bool.and_false, if_neg Bool.false_ne_true,
            Text.toggle_of_ne (by decide),
            Template.squeeze_ofChars_append hquote (by decide) hclose]

theorem sound_squeeze {ps : List Piece} (h : ∀ p ∈ ps, Sound p) (afterSpace : Bool) :
    ∀ p ∈ squeeze afterSpace ps, Sound p := by
  have hspace : Sound (.char ' ') := show Text.IsOrdinary ' ' by decide
  induction ps generalizing afterSpace with
  | nil => cases afterSpace <;> simp [squeeze]
  | cons p ps ih =>
      obtain ⟨hp, hps⟩ := List.forall_mem_cons.1 h
      cases p with
      | char c =>
          rw [squeeze]
          split
          · split
            · exact ih hps true
            · exact List.forall_mem_cons.2 ⟨hspace, ih hps true⟩
          · exact List.forall_mem_cons.2 ⟨hp, ih hps false⟩
      | table name =>
          refine List.forall_mem_cons.2 ⟨fun c hc => ?_, ih hps false⟩
          rcases Fragment.mem_of_mem_squeezeText hc with rfl | hc
          · decide
          · exact hp c hc
      | literal content | value v => exact List.forall_mem_cons.2 ⟨trivial, ih hps false⟩

/-- Collapsing writes every name in one of its forms. -/
theorem written_squeeze {ps : List Piece} (h : ∀ p ∈ ps, Sound p) {names : List (List Char)}
    (hnames : ∀ name ∈ names, ∀ c ∈ name, c ≠ '\'')
    (hwritten : List.Forall₂ Written names (ps.filterMap table?)) (afterSpace : Bool) :
    List.Forall₂ Written names ((squeeze afterSpace ps).filterMap table?) := by
  induction ps generalizing afterSpace names with
  | nil => cases afterSpace <;> exact hwritten
  | cons p ps ih =>
      obtain ⟨hp, hps⟩ := List.forall_mem_cons.1 h
      cases p with
      | char c =>
          rw [squeeze]
          split
          · split
            · exact ih hps hnames hwritten true
            · exact ih hps hnames hwritten true
          · exact ih hps hnames hwritten false
      | table name =>
          cases hwritten with
          | cons hname hrest =>
              obtain ⟨hquote, hquotes⟩ := List.forall_mem_cons.1 hnames
              exact .cons (hname.squeeze hquote) (ih hps hquotes hrest false)
      | literal content | value v => exact ih hps hnames hwritten false

end Piece

/-- A template made of pieces, with the names that are written in braces. -/
structure Template.HasNames (t : Template) (names : List (List Char)) : Prop where
  ordinary : ∀ name ∈ names, ∀ c ∈ name, Text.IsOrdinary c
  pieces : ∃ ps : List Piece, (∀ p ∈ ps, p.Sound) ∧ ps.flatMap Piece.template = t ∧
    List.Forall₂ Written names (ps.filterMap Piece.table?)

namespace Template.HasNames

variable {s t : Template} {names others : List (List Char)}

theorem nil : HasNames [] [] :=
  ⟨by simp, [], by simp, rfl, .nil⟩

/-- Nothing has no names. -/
theorem eq_nil (h : HasNames [] names) : names = [] := by
  obtain ⟨-, ps, -, heq, hwritten⟩ := h
  have hps : ps = [] := by
    cases ps with
    | nil => rfl
    | cons p ps =>
        rw [List.flatMap_cons] at heq
        cases p <;>
          simp [Piece.template, Text.Quoted.encode, Item.braced, ofChars] at heq
  subst hps
  exact List.forall₂_nil_right_iff.1 hwritten

theorem append (hs : HasNames s names) (ht : HasNames t others) :
    HasNames (s ++ t) (names ++ others) := by
  obtain ⟨hnames, ps, hps, rfl, hwritten⟩ := hs
  obtain ⟨hothers, qs, hqs, rfl, hwritten'⟩ := ht
  refine ⟨List.forall_mem_append.2 ⟨hnames, hothers⟩, ps ++ qs,
    List.forall_mem_append.2 ⟨hps, hqs⟩, List.flatMap_append, ?_⟩
  rw [List.filterMap_append]
  exact List.rel_append hwritten hwritten'

/-- A piece by itself. -/
theorem piece {p : Piece} (h : p.Sound) : HasNames p.template p.table?.toList := by
  refine ⟨fun name hname => ?_, [p], by simpa using h, List.flatMap_singleton .., ?_⟩
  · cases p with
    | table name' =>
        obtain rfl : name = name' := by simpa [Piece.table?] using hname
        exact h
    | _ => simp [Piece.table?] at hname
  · cases p with
    | table name => exact .cons (Written.refl name) .nil
    | _ => exact .nil

theorem plain {cs : List Char} (h : ∀ c ∈ cs, Text.IsOrdinary c) : HasNames (ofChars cs) [] := by
  induction cs with
  | nil => exact nil
  | cons c cs ih =>
      obtain ⟨hc, hcs⟩ := List.forall_mem_cons.1 h
      exact (piece (p := .char c) hc).append (ih hcs)

theorem literal (content : List Char) : HasNames (ofChars (Text.Quoted.encode content)) [] :=
  piece (p := .literal content) trivial

theorem value (v : Value) : HasNames [.value v] [] :=
  piece (p := .value v) trivial

theorem table {name : List Char} (h : ∀ c ∈ name, Text.IsOrdinary c) :
    HasNames (ofChars (Item.braced name)) [name] :=
  piece (p := .table name) h

theorem trim (h : HasNames t names) : HasNames (Template.trim t) names := by
  obtain ⟨hnames, ps, hps, rfl, hwritten⟩ := h
  obtain ⟨front, back, heq, hfront, hback, -⟩ := Text.exists_trimBy Piece.isBlank ps
  have hnone {qs : List Piece} (hqs : ∀ p ∈ qs, p.isBlank = true) :
      qs.filterMap Piece.table? = [] := by
    refine List.filterMap_eq_nil_iff.2 fun p hp => ?_
    have hblank := hqs p hp
    cases p with
    | table name => simp [Piece.isBlank] at hblank
    | _ => rfl
  refine ⟨hnames, Text.trimBy Piece.isBlank ps, fun p hp => hps p ?_,
    Piece.flatMap_template_trim ps, ?_⟩
  · rw [heq]
    exact List.mem_append_left back (List.mem_append_right front hp)
  · rw [heq, List.filterMap_append, List.filterMap_append, hnone hfront, hnone hback,
      List.nil_append, List.append_nil] at hwritten
    exact hwritten

theorem collapse (h : HasNames t names) : HasNames (Template.collapse t) names := by
  obtain ⟨hnames, ps, hps, rfl, hwritten⟩ := h
  have hquotes : ∀ name ∈ names, ∀ c ∈ name, c ≠ '\'' := fun name hname c hc =>
    (hnames name hname c hc).1
  exact trim ⟨hnames, Piece.squeeze false ps, Piece.sound_squeeze hps false,
    Piece.flatMap_template_squeeze hps false, Piece.written_squeeze hps hquotes hwritten false⟩

end Template.HasNames

/-! ## Expanding -/

namespace Fragment

/-- A brace behind which no name follows opens nothing. -/
theorem tableName?_eq_none {name : List Char} (h : ∀ c ∈ name, Text.IsOrdinary c)
    (hname : ¬ Text.IsName name) (rest : List Char) :
    tableName? (name ++ '\x7d' :: rest) = none := by
  have hclose : Text.isNameChar '\x7d' = false := by decide
  cases hdrop : name.dropWhile Text.isNameChar with
  | nil =>
      -- all of it are characters of names, so it is empty
      have hall : ∀ c ∈ name, Text.isNameChar c = true := List.dropWhile_eq_nil_iff.1 hdrop
      have hnil : name = [] := by
        by_contra hne
        exact hname ⟨hne, hall⟩
      subst hnil
      simp [tableName?, hclose]
  | cons c cs =>
      have hc : c ≠ '\x7d' := by
        have hmem : c ∈ name.dropWhile Text.isNameChar := hdrop ▸ List.mem_cons_self
        exact (h c ((List.dropWhile_suffix _).subset hmem)).2.2
      have hrest : (name ++ '\x7d' :: rest).dropWhile Text.isNameChar =
          c :: (cs ++ '\x7d' :: rest) := by
        rw [List.dropWhile_append, hdrop]
        rfl
      rw [tableName?, hrest]
      split
      · next heq =>
        obtain ⟨rfl, -⟩ := List.cons.inj heq
        exact absurd rfl hc
      · rfl

variable {table : List Char → List Char} {cs out : List Char}

/-- What becomes of a text when its tables are replaced, alone and behind a literal. -/
structure Expands (table : List Char → List Char) (cs out : List Char) : Prop where
  alone : replaceTables table (scan cs) = out
  behind : ∀ content, replaceTables table (scan (Text.Quoted.encode content ++ cs)) =
    Text.Quoted.encode content ++ out

theorem replaceTables_literal (content : List Char) (ss : List Segment) :
    replaceTables table (.literal content :: ss) =
      Text.Quoted.encode content ++ replaceTables table ss := by
  rw [replaceTables]
  · rfl
  · simp

namespace Expands

/-- Behind a literal nothing changes, unless a quote follows it. -/
theorem mk' (hhead : cs.head? ≠ some '\'') (h : replaceTables table (scan cs) = out) :
    Expands table cs out := by
  refine ⟨h, fun content => ?_⟩
  rw [scan_encode content hhead, replaceTables_literal, h]

theorem nil : Expands table [] [] :=
  mk' (by simp) (by simp [replaceTables])

/-- A character stays. -/
theorem cons {c : Char} (hc : Text.IsOrdinary c) (h : Expands table cs out) :
    Expands table (c :: cs) (c :: out) := by
  refine mk' (by simpa using hc.1) ?_
  rw [scan_plain hc.1 hc.2.1]
  split
  · next hmarker => simp [replaceTables, Segment.chars, h.alone, hmarker]
  · simp [replaceTables, Segment.chars, h.alone]

theorem chars {text : List Char} (htext : ∀ c ∈ text, Text.IsOrdinary c)
    (h : Expands table cs out) : Expands table (text ++ cs) (text ++ out) := by
  induction text with
  | nil => exact h
  | cons c text ih =>
      obtain ⟨hc, hrest⟩ := List.forall_mem_cons.1 htext
      exact (ih hrest).cons hc

/-- A literal stays; behind another one the two are read as one. -/
theorem literal (content : List Char) (h : Expands table cs out) :
    Expands table (Text.Quoted.encode content ++ cs) (Text.Quoted.encode content ++ out) := by
  refine ⟨h.behind content, fun front => ?_⟩
  have hjoin : Text.Quoted.encode front ++ Text.Quoted.encode content =
      Text.Quoted.encode (front ++ '\'' :: content) := by
    simp [Text.Quoted.encode, Text.Quoted.double_append, Text.Quoted.double]
  rw [← List.append_assoc, hjoin, h.behind, ← hjoin, List.append_assoc]

/-- A placeholder is replaced. -/
theorem placeholder {name : List Char} (hname : Text.IsName name) (h : Expands table cs out) :
    Expands table (Item.braced name ++ cs) (table name ++ out) := by
  have hscan : scan (Item.braced name ++ cs) = .table name :: scan cs := by
    have htext : Item.braced name ++ cs = '\x7b' :: (name ++ '\x7d' :: cs) := by
      simp [Item.braced]
    rw [htext, scan_cons, first, if_neg (by decide), if_pos rfl,
      tableName?_append hname.1 hname.2]
  refine mk' (by simp [Item.braced]) ?_
  rw [hscan, replaceTables, h.alone]

/-- Other names in braces stay as they are. -/
theorem stray {name : List Char} (hname : ∀ c ∈ name, Text.IsOrdinary c)
    (hstray : ¬ Text.IsName name) (h : Expands table cs out) :
    Expands table (Item.braced name ++ cs) (Item.braced name ++ out) := by
  have hclose : scan ('\x7d' :: cs) = .char '\x7d' :: scan cs :=
    scan_plain (by decide) (by decide) cs
  have hrest : Expands table ('\x7d' :: cs) ('\x7d' :: out) := by
    refine mk' (by simp) ?_
    rw [hclose]
    simp [replaceTables, Segment.chars, h.alone]
  have htext (cs : List Char) : Item.braced name ++ cs = '\x7b' :: (name ++ '\x7d' :: cs) := by
    simp [Item.braced]
  refine mk' (by simp [Item.braced]) ?_
  rw [htext, htext, scan_cons, first, if_neg (by decide), if_pos rfl,
    tableName?_eq_none hname hstray]
  simp [replaceTables, Segment.chars, (hrest.chars hname).alone]

/-- A slot stays. -/
theorem slot (r : Rendering) (k : Nat) (v : Value) (h : Expands table cs out) :
    Expands table (r.slot k v ++ cs) (r.slot k v ++ out) := by
  rcases r.slot_cases k v with ⟨content, hcontent⟩ | hword
  · rw [hcontent]
    exact h.literal content
  · have hordinary : ∀ c ∈ slotChars, Text.IsOrdinary c := by decide
    exact h.chars fun c hc => hordinary c (hword.chars c hc)

end Expands

end Fragment

namespace Piece

open Template (ofChars)

/-- What is written for a name in braces when tables are replaced: the scanner has to read it
as a name. -/
def expanded (table : List Char → List Char) (name : List Char) : List Char :=
  if Text.IsName name then table name else Item.braced name

/-- The text of pieces is that of their items. -/
theorem render_flatMap_template (r : Rendering) (k : Nat) (ps : List Piece) :
    Template.render r k (ps.flatMap template) =
      Item.write r Item.braced k (ps.flatMap items) := by
  induction ps generalizing k with
  | nil => rfl
  | cons p ps ih =>
      rw [List.flatMap_cons, List.flatMap_cons, Template.render_append, ih]
      cases p with
      | char c => rfl
      | value v => simp [template, items, Template.render, Item.write]
      | literal content => simp [template, items, Item.write_map_char_append]
      | table name => simp [template, items, Item.write]

/-- **A name in braces is expanded exactly if it is a name for the scanner.** Everything else
in a row of sound pieces stays as it is. -/
theorem replaceTables_scan_write (table : List Char → List Char) {ps : List Piece}
    (h : ∀ p ∈ ps, Sound p) (r : Rendering) (k : Nat) :
    Fragment.Expands table (Item.write r Item.braced k (ps.flatMap items))
      (Item.write r (expanded table) k (ps.flatMap items)) := by
  induction ps generalizing k with
  | nil => exact .nil
  | cons p ps ih =>
      obtain ⟨hp, hps⟩ := List.forall_mem_cons.1 h
      rw [List.flatMap_cons]
      cases p with
      | char c => exact (ih hps k).cons hp
      | literal content =>
          rw [items, Item.write_map_char_append, Item.write_map_char_append]
          exact (ih hps k).literal content
      | value v => exact (ih hps (k + 1)).slot r k v
      | table name =>
          rw [items, List.singleton_append, Item.write, Item.write, expanded]
          split
          · next hname => exact (ih hps k).placeholder hname
          · next hname => exact (ih hps k).stray hp hname

end Piece

end SelectSql
