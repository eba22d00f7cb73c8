import SelectSql.Proofs.Scanning
import SelectSql.Proofs.Template

/-!
# SelectSql.Proofs.Braces

Text with places for values and for tables. A walk over a template tells literals, table
names and other characters apart one character at a time, and stops at a brace that belongs
to no table name (`Side.step?`). What is walked over is a row of items (`Walk`): characters,
values and tables.

Design points:

* **A walk composes.** Walks in a row are a walk (`Walk.append`), and a walk over texts in a
  row is one over each (`Walk.exists_of_append`), even where literals touch that the scanner
  of `SelectSql.Fragment` would read as one.
* **Trimming and collapsing keep the holes**, which are the values and tables between the
  characters (`HasHoles`): a blank is never inside a table name.

Main statements: where a walk ends outside, the scanner sees what was walked over
(`Walk.eq_items_scan`). So it finds the tables of the walk (`Walk.tables_scan_render`), and
writing something else for the tables changes nothing else
(`Walk.replaceTables_scan_render`).
-/

namespace SelectSql

/-! ## Items and sides -/

/-- An item of a text: a character, the place of a value, or a table in braces. -/
inductive Item
  | char (c : Char)
  | value (v : Value)
  | table (name : List Char)

namespace Item

/-- The name of a table. -/
def table? : Item → Option (List Char)
  | .table name => some name
  | _ => none

/-- The value of a place. -/
def value? : Item → Option Value
  | .value v => some v
  | _ => none

/-- Whether an item is no character. -/
def isHole : Item → Bool
  | .char _ => false
  | _ => true

/-- The values and tables among items. -/
def holes (is : List Item) : List Item :=
  is.filter isHole

/-- The text of items behind `k` values, with `table name` for every table. -/
def write (r : Rendering) (table : List Char → List Char) : Nat → List Item → List Char
  | _, [] => []
  | k, .char c :: is => c :: write r table k is
  | k, .value v :: is => r.slot k v ++ write r table (k + 1) is
  | k, .table name :: is => table name ++ write r table k is

/-- The items behind `k` values, with the slots of values spelled out. -/
def spell (r : Rendering) : Nat → List Item → List Item
  | _, [] => []
  | k, .value v :: is => (r.slot k v).map .char ++ spell r (k + 1) is
  | k, i :: is => i :: spell r k is

/-- A name in braces. -/
def braced (name : List Char) : List Char :=
  '\x7b' :: (name ++ ['\x7d'])

@[simp] theorem holes_nil : holes [] = [] := rfl

@[simp] theorem holes_append (is js : List Item) : holes (is ++ js) = holes is ++ holes js :=
  List.filter_append is js

@[simp] theorem holes_map_char (cs : List Char) : holes (cs.map .char) = [] := by
  induction cs with
  | nil => rfl
  | cons c cs ih => exact ih

/-- What is picked from items without looking at characters is picked from their holes. -/
theorem filterMap_holes {α : Type} {f : Item → Option α} (hf : ∀ c, f (.char c) = none)
    (is : List Item) : (holes is).filterMap f = is.filterMap f := by
  rw [holes, List.filterMap_filter]
  refine List.filterMap_congr fun i _ => ?_
  cases i with
  | char c => exact (hf c).symm
  | value v | table name => rfl

theorem write_map_char_append (r : Rendering) (table : List Char → List Char) (k : Nat)
    (cs : List Char) (is : List Item) :
    write r table k (cs.map .char ++ is) = cs ++ write r table k is := by
  induction cs with
  | nil => rfl
  | cons c cs ih => exact congrArg (c :: ·) ih

/-- Spelling the slots out first changes nothing, wherever it is written. -/
theorem write_spell (r : Rendering) (table : List Char → List Char) (j k : Nat)
    (is : List Item) : write r table j (spell r k is) = write r table k is := by
  induction is generalizing j k with
  | nil => rfl
  | cons i is ih =>
      cases i with
      | char c => exact congrArg (c :: ·) (ih j k)
      | value v => rw [spell, write_map_char_append, write, ih]
      | table name => exact congrArg (table name ++ ·) (ih j k)

theorem filterMap_table?_map_char (cs : List Char) :
    (cs.map Item.char).filterMap table? = [] := by
  induction cs with
  | nil => rfl
  | cons c cs ih => exact ih

theorem filterMap_table?_spell (r : Rendering) (k : Nat) (is : List Item) :
    (spell r k is).filterMap table? = is.filterMap table? := by
  induction is generalizing k with
  | nil => rfl
  | cons i is ih =>
      cases i with
      | char c => exact ih k
      | value v =>
          rw [spell, List.filterMap_append, filterMap_table?_map_char, ih]
          rfl
      | table name => exact congrArg (name :: ·) (ih k)

end Item

/-- Where a walk stands. -/
inductive Side
  /-- Outside literals and table names. -/
  | outside
  /-- Inside a literal. -/
  | inside
  /-- Inside braces, behind a beginning of a name. -/
  | name (front : List Char)

namespace Side

/-- Whether a walk stands inside a literal. -/
def isInside : Side → Bool
  | .inside => true
  | _ => false

/-- The side behind a character, and the item that is complete with it. A brace that opens
or closes no name stops the walk. -/
def step? : Side → Char → Option (Side × List Item)
  | .outside, c =>
    if c = '\x7b' then some (.name [], [])
    else if c = '\x7d' then none
    else some (if c = '\'' then .inside else .outside, [.char c])
  | .inside, c => some (if c = '\'' then .outside else .inside, [.char c])
  | .name front, c =>
    if Text.isNameChar c then some (.name (front ++ [c]), [])
    else if c = '\x7d' ∧ front ≠ [] then some (.outside, [.table front])
    else none

end Side

/-- A character outside literals that is no sign of its own: neither a quote nor a brace. -/
def Text.IsOrdinary (c : Char) : Prop :=
  c ≠ '\'' ∧ c ≠ '\x7b' ∧ c ≠ '\x7d'

instance (c : Char) : Decidable (Text.IsOrdinary c) :=
  inferInstanceAs (Decidable (_ ∧ _))

theorem Text.isOrdinary_of_isBlank {c : Char} (h : Text.isBlank c = true) : Text.IsOrdinary c := by
  have hbrace : Text.isBlank '\x7b' = false ∧ Text.isBlank '\x7d' = false := by decide
  refine ⟨Text.ne_quote_of_isBlank h, ?_, ?_⟩
  · rintro rfl
    rw [hbrace.1] at h
    contradiction
  · rintro rfl
    rw [hbrace.2] at h
    contradiction

namespace Side

theorem step?_ordinary {c : Char} (h : Text.IsOrdinary c) :
    outside.step? c = some (.outside, [.char c]) := by
  obtain ⟨hq, ho, hc⟩ := h
  simp [step?, hq, ho, hc]

theorem step?_name {c : Char} (h : Text.isNameChar c = true) (front : List Char) :
    (name front).step? c = some (.name (front ++ [c]), []) := by
  simp [step?, h]

theorem step?_close {front : List Char} (h : front ≠ []) :
    (name front).step? '\x7d' = some (.outside, [.table front]) := by
  have hbrace : Text.isNameChar '\x7d' = false := by decide
  simp [step?, hbrace, h]

/-- Inside a name no blank is walked over. -/
theorem step?_name_blank {c : Char} (h : Text.isBlank c = true) (front : List Char) :
    (name front).step? c = none := by
  have hname : Text.isNameChar c = false := by
    cases hn : Text.isNameChar c with
    | false => rfl
    | true =>
        rw [Text.isBlank_of_isNameChar hn] at h
        contradiction
  simp [step?, hname, (Text.isOrdinary_of_isBlank h).2.2]

/-- What a step of a walk can do. -/
inductive Step : Side → Char → Side → List Item → Prop
  | ordinary {c : Char} (h : Text.IsOrdinary c) : Step .outside c .outside [.char c]
  | quote : Step .outside '\'' .inside [.char '\'']
  | content {c : Char} (h : c ≠ '\'') : Step .inside c .inside [.char c]
  | unquote : Step .inside '\'' .outside [.char '\'']
  | brace : Step .outside '\x7b' (.name []) []
  | name {front : List Char} {c : Char} (h : Text.isNameChar c = true) :
      Step (.name front) c (.name (front ++ [c])) []
  | close {front : List Char} (h : front ≠ []) :
      Step (.name front) '\x7d' .outside [.table front]

theorem step_of_step? {p p' : Side} {c : Char} {out : List Item}
    (h : p.step? c = some (p', out)) : Step p c p' out := by
  cases p with
  | outside =>
      simp only [step?] at h
      split at h
      · next hopen =>
        obtain ⟨rfl, rfl⟩ := Prod.mk.inj (Option.some.inj h)
        exact hopen ▸ .brace
      · next hopen =>
        split at h
        · contradiction
        · next hclose =>
          obtain ⟨rfl, rfl⟩ := Prod.mk.inj (Option.some.inj h)
          split
          · next hq => exact hq ▸ .quote
          · next hq => exact .ordinary ⟨hq, hopen, hclose⟩
  | inside =>
      obtain ⟨rfl, rfl⟩ := Prod.mk.inj (Option.some.inj h)
      split
      · next hq => exact hq ▸ .unquote
      · next hq => exact .content hq
  | name front =>
      simp only [step?] at h
      split at h
      · next hc =>
        obtain ⟨rfl, rfl⟩ := Prod.mk.inj (Option.some.inj h)
        exact .name hc
      · split at h
        · next hc =>
          obtain ⟨rfl, rfl⟩ := Prod.mk.inj (Option.some.inj h)
          exact hc.1 ▸ .close hc.2
        · contradiction

/-- A step keeps track of the side of the quotes. -/
theorem Step.isInside {p p' : Side} {c : Char} {out : List Item} (h : Step p c p' out) :
    p'.isInside = Text.toggle p.isInside c := by
  cases h with
  | ordinary h => exact (Text.toggle_of_ne h.1 false).symm
  | content h => exact (Text.toggle_of_ne h true).symm
  | name h => exact (Text.toggle_of_ne (Fragment.ne_of_isNameChar h).1 false).symm
  | quote | unquote | brace | close => rfl

/-- No step completes a value. -/
theorem Step.spell {p p' : Side} {c : Char} {out : List Item} (h : Step p c p' out)
    (r : Rendering) (k : Nat) (is : List Item) :
    Item.spell r k (out ++ is) = out ++ Item.spell r k is := by
  cases h <;> rfl

end Side

/-! ## Walks -/

/-- A walk over a template from one side to another, and the items that it completes. Values
have their places outside literals and names. -/
inductive Walk : Side → Template → Side → List Item → Prop
  | nil (p : Side) : Walk p [] p []
  | char {p p' q : Side} {c : Char} {t : Template} {out is : List Item}
      (step : p.step? c = some (p', out)) (rest : Walk p' t q is) :
      Walk p (.char c :: t) q (out ++ is)
  | value {q : Side} {t : Template} {is : List Item} (v : Value) (rest : Walk .outside t q is) :
      Walk .outside (.value v :: t) q (.value v :: is)

namespace Walk

open Template (ofChars)

variable {p q q' : Side} {s t : Template} {is js : List Item}

theorem append (hs : Walk p s q is) (ht : Walk q t q' js) : Walk p (s ++ t) q' (is ++ js) := by
  induction hs with
  | nil p => exact ht
  | char step rest ih =>
      rw [List.append_assoc]
      exact char step (ih ht)
  | value v rest ih => exact value v (ih ht)

theorem exists_of_append (h : Walk p (s ++ t) q is) :
    ∃ p' js ks, Walk p s p' js ∧ Walk p' t q ks ∧ is = js ++ ks := by
  induction s generalizing p is with
  | nil => exact ⟨p, [], is, nil p, h, rfl⟩
  | cons x s ih =>
      cases h with
      | char step rest =>
          obtain ⟨p', js, ks, hs, ht, rfl⟩ := ih rest
          exact ⟨p', _, ks, char step hs, ht, (List.append_assoc _ js ks).symm⟩
      | value v rest =>
          obtain ⟨p', js, ks, hs, ht, rfl⟩ := ih rest
          exact ⟨p', _, ks, value v hs, ht, rfl⟩

/-- There is one walk over a template. -/
theorem unique (h : Walk p t q is) (h' : Walk p t q' js) : q = q' ∧ is = js := by
  induction h generalizing js with
  | nil p =>
      cases h'
      exact ⟨rfl, rfl⟩
  | char step rest ih =>
      cases h' with
      | char step' rest' =>
          rw [step] at step'
          obtain ⟨rfl, rfl⟩ := Prod.mk.inj (Option.some.inj step')
          obtain ⟨rfl, rfl⟩ := ih rest'
          exact ⟨rfl, rfl⟩
  | value v rest ih =>
      cases h' with
      | value v rest' =>
          obtain ⟨rfl, rfl⟩ := ih rest'
          exact ⟨rfl, rfl⟩

/-- What is walked over behind a beginning whose walk is known. -/
theorem behind (hs : Walk p s q is) (h : Walk p (s ++ t) q' js) :
    ∃ ks, Walk q t q' ks ∧ js = is ++ ks := by
  obtain ⟨p', is', ks, hs', ht, rfl⟩ := exists_of_append h
  obtain ⟨rfl, rfl⟩ := unique hs hs'
  exact ⟨ks, ht, rfl⟩

/-- Ordinary characters stand for themselves. -/
theorem plain {cs : List Char} (h : ∀ c ∈ cs, Text.IsOrdinary c) :
    Walk .outside (ofChars cs) .outside (cs.map .char) := by
  induction cs with
  | nil => exact nil .outside
  | cons c cs ih =>
      rw [List.forall_mem_cons] at h
      exact char (Side.step?_ordinary h.1) (ih h.2)

/-- The content of a literal is walked over inside. -/
theorem double (s : List Char) :
    Walk .inside (ofChars (Text.Quoted.double s)) .inside ((Text.Quoted.double s).map .char) := by
  induction s with
  | nil => exact nil .inside
  | cons c s ih =>
      by_cases hc : c = '\''
      · subst hc
        have hout : Side.inside.step? '\'' = some (.outside, [.char '\'']) := rfl
        have hin : Side.outside.step? '\'' = some (.inside, [.char '\'']) := rfl
        exact char hout (char hin ih)
      · have hstay : Side.inside.step? c = some (.inside, [.char c]) := by simp [Side.step?, hc]
        rw [Text.Quoted.double, if_neg hc]
        exact char hstay ih

/-- A literal is a row of characters, whatever it holds. -/
theorem literal (s : List Char) :
    Walk .outside (ofChars (Text.Quoted.encode s)) .outside
      ((Text.Quoted.encode s).map .char) := by
  have hin : Side.outside.step? '\'' = some (.inside, [.char '\'']) := rfl
  have hout : Side.inside.step? '\'' = some (.outside, [.char '\'']) := rfl
  have hbody := (double s).append (char hout (nil .outside))
  have hall := char hin hbody
  simpa [Text.Quoted.encode, ofChars] using hall

/-- The characters of a name complete nothing. -/
theorem nameChars {cs : List Char} (h : ∀ c ∈ cs, Text.isNameChar c = true)
    (front : List Char) : Walk (.name front) (ofChars cs) (.name (front ++ cs)) [] := by
  induction cs generalizing front with
  | nil =>
      rw [List.append_nil]
      exact nil _
  | cons c cs ih =>
      rw [List.forall_mem_cons] at h
      have hrest := ih h.2 (front ++ [c])
      rw [List.append_assoc, List.singleton_append] at hrest
      exact char (Side.step?_name h.1 front) hrest

/-- A table in braces is one item. -/
theorem table {name : List Char} (hne : name ≠ [])
    (h : ∀ c ∈ name, Text.isNameChar c = true) :
    Walk .outside (ofChars (Item.braced name)) .outside [.table name] := by
  have hopen : Side.outside.step? '\x7b' = some (.name [], []) := rfl
  have hrest := (nameChars h []).append (char (Side.step?_close hne) (nil .outside))
  have hall := char hopen hrest
  simpa [Item.braced, ofChars] using hall

/-- Blanks that are walked over to the outside were outside all along. -/
theorem blanks {cs : List Char} (hcs : ∀ c ∈ cs, Text.isBlank c = true)
    (h : Walk p (ofChars cs) .outside is) : p = .outside ∧ Item.holes is = [] := by
  induction cs generalizing p is with
  | nil =>
      cases h
      exact ⟨rfl, rfl⟩
  | cons c cs ih =>
      rw [List.forall_mem_cons] at hcs
      have hc := Text.isOrdinary_of_isBlank hcs.1
      cases h with
      | char step rest =>
          obtain ⟨rfl, hnone⟩ := ih hcs.2 rest
          cases p with
          | outside =>
              rw [Side.step?_ordinary hc] at step
              obtain ⟨-, rfl⟩ := Prod.mk.inj (Option.some.inj step)
              exact ⟨rfl, hnone⟩
          | inside => simp [Side.step?, hc.1] at step
          | name front => simp [Side.step?_name_blank hcs.1] at step

/-- A walk keeps its sides and holes when blanks are collapsed. -/
theorem squeeze (h : Walk p t q is) (afterSpace : Bool) :
    ∃ js, Walk p (t.squeeze p.isInside afterSpace) q js ∧ Item.holes js = Item.holes is := by
  induction h generalizing afterSpace with
  | nil p => cases p <;> exact ⟨[], nil _, rfl⟩
  | @char p p' q c t out is step rest ih =>
      rw [Template.squeeze]
      split
      · next hb =>
        simp only [Bool.and_eq_true, Bool.not_eq_true'] at hb
        cases p with
        | outside =>
            have hc := Text.isOrdinary_of_isBlank hb.2
            have hspace : Text.IsOrdinary ' ' := by decide
            rw [Side.step?_ordinary hc] at step
            obtain ⟨rfl, rfl⟩ := Prod.mk.inj (Option.some.inj step)
            obtain ⟨js, hjs, hholes⟩ := ih true
            split
            · exact ⟨js, hjs, hholes⟩
            · exact ⟨_, char (Side.step?_ordinary hspace) hjs, hholes⟩
        | inside => simp [Side.isInside] at hb
        | name front => simp [Side.step?_name_blank hb.2] at step
      · obtain ⟨js, hjs, hholes⟩ := ih false
        rw [(Side.step_of_step? step).isInside] at hjs
        exact ⟨out ++ js, char step hjs, by simp [hholes]⟩
  | value v rest ih =>
      obtain ⟨js, hjs, hholes⟩ := ih false
      exact ⟨.value v :: js, value v hjs, congrArg (Item.value v :: ·) hholes⟩

end Walk

/-! ## Holes -/

/-- A template that is walked over from the outside to the outside, with the holes that are
found on the way. -/
def Template.HasHoles (t : Template) (hs : List Item) : Prop :=
  ∃ is, Walk .outside t .outside is ∧ Item.holes is = hs

namespace Template.HasHoles

variable {s t : Template} {hs gs : List Item}

theorem nil : HasHoles [] [] :=
  ⟨[], Walk.nil _, rfl⟩

/-- Nothing has no holes. -/
theorem eq_nil (h : HasHoles [] hs) : hs = [] := by
  obtain ⟨is, hwalk, rfl⟩ := h
  cases hwalk
  rfl

theorem append (hs' : HasHoles s gs) (ht : HasHoles t hs) : HasHoles (s ++ t) (gs ++ hs) := by
  obtain ⟨is, his, rfl⟩ := hs'
  obtain ⟨js, hjs, rfl⟩ := ht
  exact ⟨is ++ js, his.append hjs, Item.holes_append is js⟩

theorem plain {cs : List Char} (h : ∀ c ∈ cs, Text.IsOrdinary c) :
    HasHoles (ofChars cs) [] :=
  ⟨_, Walk.plain h, Item.holes_map_char cs⟩

theorem literal (s : List Char) : HasHoles (ofChars (Text.Quoted.encode s)) [] :=
  ⟨_, Walk.literal s, Item.holes_map_char _⟩

theorem value (v : Value) : HasHoles [.value v] [.value v] :=
  ⟨_, Walk.value v (Walk.nil _), rfl⟩

theorem table {name : List Char} (hne : name ≠ [])
    (h : ∀ c ∈ name, Text.isNameChar c = true) :
    HasHoles (ofChars (Item.braced name)) [.table name] :=
  ⟨_, Walk.table hne h, rfl⟩

theorem trim (h : HasHoles t hs) : HasHoles (Template.trim t) hs := by
  obtain ⟨is, hwalk, rfl⟩ := h
  obtain ⟨front, back, heq, hfront, hback, -⟩ := exists_trim t
  have hordinary : ∀ c ∈ front, Text.IsOrdinary c :=
    fun c hc => Text.isOrdinary_of_isBlank (hfront c hc)
  rw [heq, List.append_assoc] at hwalk
  obtain ⟨js, hjs, rfl⟩ := (Walk.plain hordinary).behind hwalk
  obtain ⟨p, ks, ls, hks, hls, rfl⟩ := Walk.exists_of_append hjs
  obtain ⟨rfl, hnone⟩ := Walk.blanks hback hls
  exact ⟨ks, hks, by simp [hnone]⟩

theorem collapse (h : HasHoles t hs) : HasHoles (Template.collapse t) hs := by
  obtain ⟨is, hwalk, rfl⟩ := h
  obtain ⟨js, hjs, hholes⟩ := hwalk.squeeze false
  exact trim ⟨js, hjs, hholes⟩

end Template.HasHoles

/-! ## Scanning -/

/-- A segment as a row of items. -/
def Segment.items : Segment → List Item
  | .table name => [.table name]
  | s => s.chars.map .char

namespace Fragment

theorem tableName?_append {name : List Char} (hne : name ≠ [])
    (h : ∀ c ∈ name, Text.isNameChar c = true) (rest : List Char) :
    tableName? (name ++ '\x7d' :: rest) = some (name, rest) := by
  have hclose : ('\x7d' :: rest).takeWhile Text.isNameChar = [] ∧
      ('\x7d' :: rest).dropWhile Text.isNameChar = '\x7d' :: rest := by
    have hbrace : Text.isNameChar '\x7d' = false := by decide
    simp [hbrace]
  obtain ⟨c, cs, rfl⟩ := List.exists_cons_of_ne_nil hne
  rw [tableName?, List.takeWhile_append_of_pos h, List.dropWhile_append_of_pos h, hclose.1,
    hclose.2, List.append_nil]
  rfl

theorem filterMap_table?_items (ss : List Segment) :
    (ss.flatMap Segment.items).filterMap Item.table? = tables ss := by
  induction ss with
  | nil => rfl
  | cons s ss ih =>
      rw [List.flatMap_cons, List.filterMap_append, ih]
      cases s with
      | table name => rfl
      | _ =>
          rw [Segment.items, Item.filterMap_table?_map_char]
          · rfl
          · simp

theorem write_items (r : Rendering) (table : List Char → List Char) (k : Nat)
    (ss : List Segment) :
    Item.write r table k (ss.flatMap Segment.items) = replaceTables table ss := by
  induction ss with
  | nil => rfl
  | cons s ss ih =>
      rw [List.flatMap_cons]
      cases s with
      | table name => exact congrArg (table name ++ ·) ih
      | _ =>
          rw [Segment.items, Item.write_map_char_append, ih, replaceTables]
          all_goals simp

/-- With the names back in their braces a text is as it was. -/
theorem replaceTables_braced (ss : List Segment) :
    replaceTables Item.braced ss = ss.flatMap Segment.chars := by
  induction ss with
  | nil => rfl
  | cons s ss ih =>
      rw [List.flatMap_cons, ← ih]
      cases s with
      | table name => rfl
      | _ => rw [replaceTables]; simp

end Fragment

/-! ## Rendered walks -/

namespace Walk

open Template (ofChars)

/-- A slot is a row of characters. -/
theorem slot (r : Rendering) (k : Nat) (v : Value) :
    Walk .outside (ofChars (r.slot k v)) .outside ((r.slot k v).map .char) := by
  rcases r.slot_cases k v with ⟨s, hs⟩ | hword
  · rw [hs]
    exact literal s
  · have hordinary : ∀ c ∈ slotChars, Text.IsOrdinary c := by decide
    exact plain fun c hc => hordinary c (hword.chars c hc)

/-- The text of a template is walked over as the template itself, with the slots of its
values spelled out. -/
theorem render {p q : Side} {t : Template} {is : List Item} (h : Walk p t q is) (r : Rendering)
    (k : Nat) : Walk p (ofChars (t.render r k)) q (Item.spell r k is) := by
  induction h generalizing k with
  | nil p => exact nil p
  | char step rest ih =>
      rw [(Side.step_of_step? step).spell]
      exact char step (ih k)
  | value v rest ih =>
      rw [Template.render, ofChars, List.map_append]
      exact (slot r k v).append (ih (k + 1))

/-- A walk to the outside is balanced. -/
theorem insideAfter {p : Side} {cs : List Char} {is : List Item}
    (h : Walk p (ofChars cs) .outside is) : Text.insideAfter p.isInside cs = false := by
  induction cs generalizing p is with
  | nil =>
      cases h
      rfl
  | cons c cs ih =>
      cases h with
      | char step rest =>
          rw [Text.insideAfter_cons, ← (Side.step_of_step? step).isInside]
          exact ih rest

/-- From inside a name a walk goes on to its closing brace. -/
theorem exists_name {front cs : List Char} {is : List Item}
    (h : Walk (.name front) (ofChars cs) .outside is) :
    ∃ name rest js, cs = name ++ '\x7d' :: rest ∧ (∀ c ∈ name, Text.isNameChar c = true) ∧
      front ++ name ≠ [] ∧ is = .table (front ++ name) :: js ∧
      Walk .outside (ofChars rest) .outside js := by
  induction cs generalizing front is with
  | nil => cases h
  | cons c cs ih =>
      cases h with
      | char step rest =>
          cases Side.step_of_step? step with
          | name hc =>
              obtain ⟨name, behind, js, rfl, hname, hne, rfl, hjs⟩ := ih rest
              refine ⟨c :: name, behind, js, rfl, List.forall_mem_cons.2 ⟨hc, hname⟩, ?_, ?_, hjs⟩
              · simp
              · simp
          | close hne => exact ⟨[], cs, _, rfl, by simp, by simpa using hne, by simp, rest⟩

/-- A walk from the outside to the outside goes on behind the first segment. -/
theorem exists_first {c : Char} {cs : List Char} {is : List Item}
    (h : Walk .outside (ofChars (c :: cs)) .outside is) :
    ∃ js, Walk .outside (ofChars (Fragment.first c cs).2) .outside js ∧
      is = (Fragment.first c cs).1.items ++ js := by
  unfold Fragment.first
  split
  · next hc =>
    subst hc
    split
    · next content rest hbody =>
      have hcs : '\'' :: cs = Text.Quoted.encode content ++ rest := by
        simp [Text.Quoted.encode, Text.Quoted.eq_of_body? hbody]
      rw [hcs, ofChars, List.map_append] at h
      exact (literal content).behind h
    · next hbody =>
      -- a literal that does not end would leave the walk inside
      have hside : Text.insideAfter false ('\'' :: cs) = false := h.insideAfter
      have hopen := Text.insideAfter_of_body?_eq_none hbody
      rw [Text.insideAfter_cons, Text.toggle_quote, Bool.not_false, hopen] at hside
      contradiction
  · next hq =>
    split
    · next hc =>
      subst hc
      cases h with
      | char step rest =>
          obtain ⟨rfl, rfl⟩ := Prod.mk.inj (Option.some.inj step)
          obtain ⟨name, behind, js, rfl, hname, hne, rfl, hjs⟩ := exists_name rest
          rw [List.nil_append] at hne ⊢
          rw [Fragment.tableName?_append hne hname]
          exact ⟨js, hjs, rfl⟩
    · next hb =>
      cases h with
      | char step rest =>
          have hclose : c ≠ '\x7d' := by
            rintro rfl
            simp [Side.step?] at step
          rw [Side.step?_ordinary ⟨hq, hb, hclose⟩] at step
          obtain ⟨rfl, rfl⟩ := Prod.mk.inj (Option.some.inj step)
          split
          · next hm =>
            subst hm
            exact ⟨_, rest, rfl⟩
          · exact ⟨_, rest, rfl⟩

/-- **The scanner sees what is walked over**, literals taken apart into characters. -/
theorem eq_items_scan {cs : List Char} {is : List Item}
    (h : Walk .outside (ofChars cs) .outside is) :
    is = (Fragment.scan cs).flatMap Segment.items := by
  fun_induction Fragment.scan cs generalizing is with
  | case1 =>
      cases h
      rfl
  | case2 c cs ih =>
      obtain ⟨js, hjs, rfl⟩ := exists_first h
      rw [List.flatMap_cons, ih hjs]

variable {t : Template} {is : List Item} (r : Rendering) (k : Nat)

/-- The tables of a rendered template are those that are walked over. -/
theorem tables_scan_render (h : Walk .outside t .outside is) :
    Fragment.tables (Fragment.scan (t.render r k)) = is.filterMap Item.table? := by
  rw [← Fragment.filterMap_table?_items, ← eq_items_scan (h.render r k),
    Item.filterMap_table?_spell]

/-- Writing something else for the tables of a rendered template changes nothing else. -/
theorem replaceTables_scan_render (h : Walk .outside t .outside is)
    (table : List Char → List Char) :
    Fragment.replaceTables table (Fragment.scan (t.render r k)) = Item.write r table k is := by
  rw [← Fragment.write_items r table k, ← eq_items_scan (h.render r k), Item.write_spell]

/-- A rendered template is what was walked over, with its tables in braces. -/
theorem render_eq_write (h : Walk .outside t .outside is) :
    t.render r k = Item.write r Item.braced k is := by
  rw [← h.replaceTables_scan_render r k, Fragment.replaceTables_braced,
    Fragment.flatMap_chars_scan]

end Walk

end SelectSql
