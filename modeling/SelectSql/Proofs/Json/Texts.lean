import SelectSql.Proofs.Json.Numbers

/-!
# SelectSql.Proofs.Json.Texts

A document is read back from its JSON text.

Design points:

* **The reader stops where the text of the document ends**: `Reads` holds in front of every
  text that stops a number, which commas, closing brackets and the end of the text do.
* **Fuel is paid for by characters**: twice the length of a text is enough to read it, as
  every call of the reader is followed by a character that it reads.
* **Only what JSON can write is read back** (`Tree.Printable`): an integer beyond 64 bits is
  read as a float, and what is not finite is written as null.

Main statement: `Tree.ofJson?_json`.
-/

namespace SelectSql.Json

/-! ## Strings -/

theorem hexNumber?_control (n : ℕ) (h : n < 0x20) :
    hexNumber? ['0', '0', hexDigit (n / 16), hexDigit (n % 16)] = some n := by
  have hall : ∀ k < 0x20, hexNumber? ['0', '0', hexDigit (k / 16), hexDigit (k % 16)] = some k := by
    decide
  exact hall n h

/-- A character is read back from the way it is written in a string. -/
theorem string?_escape (c : Char) (cs : List Char) :
    string? (escape c ++ cs) = (string? cs).map (cons c) := by
  unfold escape
  split
  · rfl
  · rfl
  · rfl
  · rfl
  · rfl
  · rfl
  · rfl
  · next hquote hslash _ _ _ _ _ =>
    split
    · next hlow =>
      have hsurrogate : isHighSurrogate c.toNat = false ∧ isLowSurrogate c.toNat = false := by
        simp only [isHighSurrogate, isLowSurrogate, Bool.and_eq_false_iff, decide_eq_false_iff_not]
        omega
      simp only [List.cons_append, List.nil_append]
      rw [string?, hexNumber?_control c.toNat hlow]
      simp [hsurrogate]
    · next hlow =>
      rw [List.singleton_append, string?]
      · rw [if_neg hlow]
      · exact fun h => hquote h
      · intro _ _ _ _ _ h
        exact (hslash h).elim
      · intro _ _ h
        exact (hslash h).elim

/-- A string is read back behind its opening quote. -/
theorem string?_flatMap_escape (s rest : List Char) :
    string? (s.flatMap escape ++ '"' :: rest) = some (some s, rest) := by
  induction s with
  | nil => rw [List.flatMap_nil, List.nil_append, string?]
  | cons c s ih =>
      rw [List.flatMap_cons, List.append_assoc, string?_escape, ih]
      rfl

theorem toList_string (s : String) :
    (string s).toList = '"' :: (s.toList.flatMap escape ++ ['"']) := by
  rw [string, String.toList_ofList]

/-! ## Texts of documents -/

/-- Texts with commas between them, up to a closing bracket. -/
def listed (close : Char) : List (List Char) → List Char
  | [] => [close]
  | [cs] => cs ++ [close]
  | cs :: ds :: rest => cs ++ ',' :: listed close (ds :: rest)

theorem intercalate_append (close : Char) (cs : List Char) (rest : List (List Char)) :
    [','].intercalate (cs :: rest) ++ [close] = listed close (cs :: rest) := by
  induction rest generalizing cs with
  | nil => simp [listed]
  | cons ds rest ih =>
      rw [listed, ← ih ds, List.intercalate_cons_cons]
      simp

theorem toList_bracket {first last : String} {close : Char} (h : last.toList = [close])
    (items : List String) :
    (bracket none first last items).toList =
      first.toList ++ listed close (items.map String.toList) := by
  cases items with
  | nil => simp [bracket, listed, h]
  | cons s items =>
      rw [List.map_cons, ← intercalate_append]
      simp [bracket, h]

/-- The characters of a document on one line. -/
def chars (t : Tree) : List Char :=
  (print none t).toList

/-- The characters of an entry of a record. -/
def entryChars (e : String × Tree) : List Char :=
  (string e.1).toList ++ ':' :: chars e.2

theorem printItems_eq (ts : List Tree) : printItems none ts = ts.map (print none) := by
  induction ts with
  | nil => rfl
  | cons t ts ih => rw [printItems, ih, List.map_cons]

theorem chars_list (ts : List Tree) : chars (.list ts) = '[' :: listed ']' (ts.map chars) := by
  rw [chars, print, toList_bracket rfl, Option.map_none, printItems_eq, List.map_map]
  rfl

theorem chars_record (es : List (String × Tree)) :
    chars (.record es) = '\x7b' :: listed '\x7d' (es.map entryChars) := by
  have hentries : (printEntries none es).map String.toList = es.map entryChars := by
    induction es with
    | nil => rfl
    | cons e es ih =>
        rw [printEntries, List.map_cons, List.map_cons, ih]
        simp [entryChars, chars]
  rw [chars, print, toList_bracket rfl, Option.map_none, hentries]
  rfl

/-! ## Beginnings and ends -/

/-- A text that starts with neither a blank nor a closing bracket. -/
def Opens (cs : List Char) : Prop :=
  ∃ c rest, cs = c :: rest ∧ isSpace c = false ∧ c ≠ ']'

theorem Opens.length_pos {cs : List Char} (h : Opens cs) : 0 < cs.length := by
  obtain ⟨c, rest, rfl, -⟩ := h
  simp

theorem skipSpace_cons {c : Char} (h : isSpace c = false) (cs : List Char) :
    skipSpace (c :: cs) = c :: cs := by
  simp [skipSpace, h]

theorem stops_cons {c : Char} (h : c ∈ [',', ']', '\x7d']) (rest : List Char) :
    Stops (c :: rest) := by
  intro d hd
  obtain rfl : c = d := by simpa using hd
  have hcases : c = ',' ∨ c = ']' ∨ c = '\x7d' := by simpa using h
  rcases hcases with rfl | rfl | rfl <;> decide

/-- The characters that a document other than a number starts with, and blanks. -/
def otherHeads : List Char :=
  [' ', '\n', '\t', '\r', ']', '\x7b', '[', '"', 't', 'f', 'n']

theorem notMem_otherHeads {c : Char} (h : isDigit c = true ∨ c = '-') : c ∉ otherHeads := by
  intro hc
  have hall : (otherHeads.all fun d => !isDigit d && d != '-') = true := by decide
  have hother := List.all_eq_true.1 hall c hc
  simp only [Bool.and_eq_true, Bool.not_eq_true', bne_iff_ne] at hother
  rcases h with hdigit | hsign
  · rw [hother.1] at hdigit
    contradiction
  · exact hother.2 hsign

theorem isSpace_of_notMem {c : Char} (h : c ∉ otherHeads) : isSpace c = false := by
  simp only [otherHeads, List.mem_cons, not_or] at h
  simp [isSpace, h]

/-- A number starts with a digit or a minus sign. -/
theorem exists_head_of_number? {cs : List Char} {p : Tree × List Char}
    (h : number? cs = some p) :
    ∃ c rest, cs = c :: rest ∧ (isDigit c = true ∨ c = '-') := by
  unfold number? at h
  split at h
  next negative cs' hsign =>
  split at hsign
  · next rest => exact ⟨'-', rest, rfl, .inr rfl⟩
  · obtain ⟨-, rfl⟩ := Prod.mk.inj hsign
    cases cs with
    | nil => simp [wholeDigits?, spanDigits] at h
    | cons c cs =>
        refine ⟨c, cs, rfl, .inl ?_⟩
        by_contra hc
        have hzero : c ≠ '0' := by
          rintro rfl
          exact hc (by decide)
        simp [wholeDigits?, spanDigits, hc, hzero] at h

/-- A text that is read as a number is read as a document. -/
theorem value?_of_number? {cs : List Char} {p : Tree × List Char} (h : number? cs = some p)
    (fuel : ℕ) : value? (fuel + 1) cs = some p := by
  obtain ⟨c, rest, rfl, hc⟩ := exists_head_of_number? h
  have hother := notMem_otherHeads hc
  rw [value?, skipSpace_cons (isSpace_of_notMem hother)]
  simp only [otherHeads, List.mem_cons, not_or] at hother
  split
  all_goals simp_all

/-! ## Reading back -/

/-- A document is read back from its text, in front of everything that stops a number. -/
structure Reads (t : Tree) : Prop where
  opens : Opens (chars t)
  read : ∀ fuel rest, Stops rest → 2 * (chars t).length ≤ fuel →
    value? fuel (chars t ++ rest) = some (t, rest)

/-- It suffices that the document is read with some fuel at all. -/
theorem Reads.of_succ {t : Tree} (hopens : Opens (chars t))
    (h : ∀ fuel rest, Stops rest → 2 * (chars t).length ≤ fuel + 1 →
      value? (fuel + 1) (chars t ++ rest) = some (t, rest)) : Reads t := by
  refine ⟨hopens, fun fuel rest hrest hfuel => ?_⟩
  have hpos := hopens.length_pos
  obtain ⟨k, rfl⟩ : ∃ k, fuel = k + 1 := ⟨fuel - 1, by omega⟩
  exact h k rest hrest hfuel

theorem Reads.of_number {t : Tree}
    (h : ∀ rest, Stops rest → number? (chars t ++ rest) = some (t, rest)) : Reads t := by
  have hhead : Opens (chars t) := by
    obtain ⟨c, rest, hc, hdigit⟩ := exists_head_of_number? (h [] Stops.nil)
    rw [List.append_nil] at hc
    have hother := notMem_otherHeads hdigit
    refine ⟨c, rest, hc, isSpace_of_notMem hother, ?_⟩
    rintro rfl
    exact hother (by decide)
  exact .of_succ hhead fun fuel rest hrest _ => value?_of_number? (h rest hrest) fuel

theorem Reads.text (s : String) : Reads (.text s) := by
  have hchars : chars (.text s) = '"' :: (s.toList.flatMap escape ++ ['"']) := toList_string s
  refine .of_succ ⟨'"', _, hchars, by decide, by decide⟩ fun fuel rest hrest _ => ?_
  have hstring := string?_flatMap_escape s.toList rest
  rw [hchars, List.cons_append, value?, skipSpace_cons (by decide)]
  simp [hstring, ofString]

theorem Reads.null : Reads .null := by
  have hchars : chars .null = ['n', 'u', 'l', 'l'] := rfl
  refine .of_succ ⟨'n', _, hchars, by decide, by decide⟩ fun fuel rest _ _ => ?_
  rw [hchars, List.cons_append, value?, skipSpace_cons (by decide)]
  rfl

theorem Reads.bool (b : Bool) : Reads (.bool b) := by
  cases b with
  | false =>
      have hchars : chars (.bool false) = ['f', 'a', 'l', 's', 'e'] := rfl
      refine .of_succ ⟨'f', _, hchars, by decide, by decide⟩ fun fuel rest _ _ => ?_
      rw [hchars, List.cons_append, value?, skipSpace_cons (by decide)]
      rfl
  | true =>
      have hchars : chars (.bool true) = ['t', 'r', 'u', 'e'] := rfl
      refine .of_succ ⟨'t', _, hchars, by decide, by decide⟩ fun fuel rest _ _ => ?_
      rw [hchars, List.cons_append, value?, skipSpace_cons (by decide)]
      rfl

/-- Entries between brackets, with a reader that takes one entry and goes on behind a comma. -/
theorem read_listed {α β : Type} (read : ℕ → List Char → Option (List β × List Char))
    (close : Char) (chars : α → List Char) (item : α → β) {as : List α}
    (hstep : ∀ a ∈ as, ∀ fuel, 2 * (chars a).length ≤ fuel → ∀ rest,
      read (fuel + 1) (chars a ++ close :: rest) = some ([item a], rest) ∧
        read (fuel + 1) (chars a ++ ',' :: rest) =
          (read fuel rest).map fun p => (item a :: p.1, p.2))
    (hne : as ≠ []) (fuel : ℕ) (rest : List Char)
    (hfuel : 2 * (listed close (as.map chars)).length ≤ fuel) :
    read fuel (listed close (as.map chars) ++ rest) = some (as.map item, rest) := by
  induction as generalizing fuel with
  | nil => contradiction
  | cons a as ih =>
      obtain ⟨ha, hlater⟩ := List.forall_mem_cons.1 hstep
      cases as with
      | nil =>
          simp only [List.map_cons, List.map_nil, listed, List.length_append,
            List.length_singleton] at hfuel
          obtain ⟨fuel, rfl⟩ : ∃ k, fuel = k + 1 := ⟨fuel - 1, by omega⟩
          simp only [List.map_cons, List.map_nil, listed, List.append_assoc, List.singleton_append]
          exact (ha fuel (by omega) rest).1
      | cons b bs =>
          simp only [List.map_cons, listed, List.length_append, List.length_cons] at hfuel
          obtain ⟨fuel, rfl⟩ : ∃ k, fuel = k + 1 := ⟨fuel - 1, by omega⟩
          have hrest := ih hlater (List.cons_ne_nil b bs) fuel (by simp only [List.map_cons]; omega)
          simp only [List.map_cons, listed, List.append_assoc, List.cons_append] at hrest ⊢
          rw [(ha fuel (by omega) _).2, hrest]
          rfl

section Lists

variable {ts : List Tree} (h : ∀ t ∈ ts, Reads t)
include h

theorem items?_listed (hne : ts ≠ []) (fuel : ℕ) (rest : List Char)
    (hfuel : 2 * (listed ']' (ts.map chars)).length ≤ fuel) :
    items? fuel (listed ']' (ts.map chars) ++ rest) = some (ts, rest) := by
  have hstep : ∀ t ∈ ts, ∀ fuel, 2 * (chars t).length ≤ fuel → ∀ rest,
      items? (fuel + 1) (chars t ++ ']' :: rest) = some ([id t], rest) ∧
        items? (fuel + 1) (chars t ++ ',' :: rest) =
          (items? fuel rest).map fun p => (id t :: p.1, p.2) := by
    intro t ht fuel hfuel rest
    have hclose := (h t ht).read fuel (']' :: rest) (stops_cons (by decide) rest) hfuel
    have hcomma := (h t ht).read fuel (',' :: rest) (stops_cons (by decide) rest) hfuel
    constructor
    · rw [items?, hclose]
      rfl
    · rw [items?, hcomma]
      rfl
  have hread := read_listed items? ']' chars id hstep hne fuel rest hfuel
  rwa [List.map_id] at hread

theorem Reads.list : Reads (.list ts) := by
  have hchars := chars_list ts
  refine .of_succ ⟨'[', _, hchars, by decide, by decide⟩ fun fuel rest hrest hfuel => ?_
  rw [hchars, List.length_cons] at hfuel
  rw [hchars, List.cons_append, value?, skipSpace_cons (by decide)]
  cases ts with
  | nil => simp [listed, skipSpace_cons, isSpace]
  | cons t ts =>
      have hitems := items?_listed h (by simp) fuel rest (by omega)
      obtain ⟨c, cs, hc, hspace, hclose⟩ := (h t List.mem_cons_self).opens
      have hopens : ∃ cs', listed ']' ((t :: ts).map chars) ++ rest = c :: cs' := by
        cases ts
        all_goals
          simp only [List.map_cons, List.map_nil, listed, hc]
          exact ⟨_, rfl⟩
      obtain ⟨cs', hcs'⟩ := hopens
      rw [hcs'] at hitems ⊢
      simp only [skipSpace_cons hspace]
      split
      · next heq => exact (hclose (List.cons.inj heq).1).elim
      · rw [hitems]
        rfl

end Lists

section Entry

/-- An entry as it is read: the characters of its key and its document. -/
def member (e : String × Tree) : Option (List Char) × Tree :=
  (some e.1.toList, e.2)

theorem ofMembers_map_member (es : List (String × Tree)) :
    ofMembers (es.map member) = .record es := by
  have hentries : (es.map member).mapM (fun m => m.1.map fun k => (String.ofList k, m.2)) =
      some es := by
    induction es with
    | nil => rfl
    | cons e es ih =>
        rw [List.map_cons, List.mapM_cons, ih]
        simp [member]
  rw [ofMembers, hentries]

variable {e : String × Tree} (h : Reads e.2) (fuel : ℕ) (hfuel : 2 * (chars e.2).length ≤ fuel)
include h hfuel

/-- One entry is read, and then the reading goes on as the character behind it tells. -/
theorem members?_entryChars {c : Char} (hc : c ∈ [',', ']', '\x7d']) (rest : List Char) :
    members? (fuel + 1) (entryChars e ++ c :: rest) =
      match c :: rest with
      | ',' :: cs => (members? fuel cs).map fun p => (member e :: p.1, p.2)
      | '\x7d' :: cs => some ([member e], cs)
      | _ => none := by
  have hstring := string?_flatMap_escape e.1.toList (':' :: (chars e.2 ++ c :: rest))
  have hread := h.read fuel (c :: rest) (stops_cons hc rest) hfuel
  have htext : entryChars e ++ c :: rest =
      '"' :: (e.1.toList.flatMap escape ++ '"' :: ':' :: (chars e.2 ++ c :: rest)) := by
    simp [entryChars, toList_string]
  have hspace : isSpace c = false := by
    have hcases : c = ',' ∨ c = ']' ∨ c = '\x7d' := by simpa using hc
    rcases hcases with rfl | rfl | rfl <;> decide
  have hcolon : isSpace ':' = false := by decide
  rw [htext, members?, skipSpace_cons (by decide)]
  simp only [hstring, Option.bind_eq_bind, Option.bind_some, skipSpace_cons hcolon, hread,
    skipSpace_cons hspace]
  rfl

end Entry

section Records

variable {es : List (String × Tree)} (h : ∀ e ∈ es, Reads e.2)
include h

theorem members?_listed (hne : es ≠ []) (fuel : ℕ) (rest : List Char)
    (hfuel : 2 * (listed '\x7d' (es.map entryChars)).length ≤ fuel) :
    members? fuel (listed '\x7d' (es.map entryChars) ++ rest) = some (es.map member, rest) := by
  refine read_listed members? '\x7d' entryChars member (fun e he fuel hfuel rest => ?_) hne fuel
    rest hfuel
  have hlen : (chars e.2).length ≤ (entryChars e).length := by
    simp [entryChars, toList_string]
    omega
  have hentry : 2 * (chars e.2).length ≤ fuel := by omega
  exact ⟨members?_entryChars (h e he) fuel hentry (by decide) rest,
    members?_entryChars (h e he) fuel hentry (by decide) rest⟩

theorem Reads.record : Reads (.record es) := by
  have hchars := chars_record es
  refine .of_succ ⟨'\x7b', _, hchars, by decide, by decide⟩ fun fuel rest hrest hfuel => ?_
  rw [hchars, List.length_cons] at hfuel
  rw [hchars, List.cons_append, value?, skipSpace_cons (by decide)]
  cases es with
  | nil => simp [listed, skipSpace_cons, isSpace]
  | cons e es =>
      have hmembers := members?_listed h (by simp) fuel rest (by omega)
      have hopens : ∃ cs, listed '\x7d' ((e :: es).map entryChars) ++ rest = '"' :: cs := by
        cases es
        all_goals
          simp only [List.map_cons, List.map_nil, listed, entryChars, toList_string]
          exact ⟨_, rfl⟩
      obtain ⟨cs, hcs⟩ := hopens
      have hquote : isSpace '"' = false := by decide
      rw [hcs] at hmembers ⊢
      simp only [skipSpace_cons hquote]
      split
      · next heq => simp at heq
      · rw [hmembers, Option.map_some, ofMembers_map_member]

end Records

end SelectSql.Json

namespace SelectSql.Tree

mutual

/-- A document that JSON can write: its integers fit 64 bits, its other numbers are finite,
and none of its nodes is unreadable. -/
def Printable : Tree → Prop
  | .int n => Int64.minValue.toInt ≤ n ∧ n < UInt64.size
  | .float x => x.isFinite = true
  | .list items => AllPrintable items
  | .record entries => EntriesPrintable entries
  | .unreadable => False
  | .null | .bool _ | .text _ => True

/-- `Printable`, item by item. -/
def AllPrintable : List Tree → Prop
  | [] => True
  | t :: ts => t.Printable ∧ AllPrintable ts

/-- `Printable`, entry by entry. -/
def EntriesPrintable : List (String × Tree) → Prop
  | [] => True
  | (_, t) :: es => t.Printable ∧ EntriesPrintable es

end

open Json (Reads)

mutual

/-- Every document that JSON can write is read back from its text. -/
theorem reads : (t : Tree) → t.Printable → Reads t
  | .null, _ => .null
  | .bool b, _ => .bool b
  | .int n, h => .of_number fun _ hrest => Json.number?_int h.1 h.2 hrest
  | .float x, h => .of_number fun rest hrest => by
      have hfinite : x.isFinite = true := h
      have htext : Json.chars (.float x) = Layout.json.finite x := by
        simp [Json.chars, Json.print, Json.number, hfinite]
      rw [htext]
      exact Json.number?_finite hfinite hrest
  | .text s, _ => .text s
  | .list items, h => .list (readsAll items h)
  | .record entries, h => .record (readsEntries entries h)
  | .unreadable, h => h.elim

theorem readsAll : (ts : List Tree) → AllPrintable ts → ∀ t ∈ ts, Reads t
  | [], _ => by simp
  | t :: ts, h => List.forall_mem_cons.2 ⟨reads t h.1, readsAll ts h.2⟩

theorem readsEntries :
    (es : List (String × Tree)) → EntriesPrintable es → ∀ e ∈ es, Reads e.2
  | [], _ => by simp
  | (_, t) :: es, h => List.forall_mem_cons.2 ⟨reads t h.1, readsEntries es h.2⟩

end

/-- **A document is read back from its JSON text.** -/
theorem ofJson?_json {t : Tree} (h : t.Printable) : ofJson? t.json = some t := by
  have hfuel : 2 * (Json.chars t).length ≤ 2 * (Json.chars t).length + 2 := by omega
  have hread := (reads t h).read _ [] Stops.nil hfuel
  rw [List.append_nil] at hread
  have htext : t.json.toList = Json.chars t := rfl
  unfold ofJson?
  simp only [htext, hread]
  rfl

end SelectSql.Tree
