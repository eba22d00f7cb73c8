/-!
# SelectSql.Text.Plain

Text without what controls a terminal. A control sequence begins with the escape
character and goes on to its final character; some sequences open a string that goes on
to its terminator. Other control characters stand alone, and of them only those that are
spaces remain.

Design points:

* **The reader is a machine with a few places** (`Place`): in the text, in a sequence, in
  the opening of a device string, in a string.
* **A control character that is a space pauses a sequence.** It is kept, and so is the
  text behind it; the next control character that is dropped resumes the sequence.
* **Strings end at a byte, not at a character**: the terminator may be one of the bytes
  of a character in UTF-8 (`hasTerminator`).
* **Text without control characters is left as it is** (`ofChars_eq_self`).
-/

namespace SelectSql.Text.Plain

/-! ## Characters -/

/-- The control characters that are spaces. -/
def isKeptControl (c : Char) : Bool :=
  c == '\t' || c == '\n' || c == '\x0c' || c == '\r'

/-- A control character. -/
def isControl (c : Char) : Bool :=
  c < ' ' || c == '\x7f'

/-- The byte that ends a string. -/
def terminator : UInt8 := 0x9C

/-- Whether the terminator of strings is among the bytes of a character. -/
def hasTerminator (c : Char) : Bool :=
  (String.utf8EncodeChar c).contains terminator

/-! ## Places -/

/-- The places in a sequence: behind the escape character, behind a character that goes
between it and the final one, and behind the bracket that opens parameters. -/
inductive Sequence
  | escape
  | intermediate
  | parameters
deriving DecidableEq

/-- The places in the opening of a device string: at its start, behind a parameter, and
behind a character that goes between them and the final one. -/
inductive Opening
  | entry
  | parameters
  | intermediate
deriving DecidableEq

/-- Where the reader is in a text. A command string ends at a bell, any other string at
its terminator. -/
inductive Place
  | text
  | within (s : Sequence)
  | paused (s : Sequence)
  | opening (o : Opening)
  | command
  | string
deriving DecidableEq

/-- The place behind a printable character of a sequence. -/
def Sequence.next (s : Sequence) (c : Char) : Place :=
  match s with
  | .escape =>
    if c < '0' then .within .intermediate
    else match c with
      | '[' => .within .parameters
      | ']' => .command
      | 'P' => .opening .entry
      | 'X' | '^' | '_' => .string
      | _ => .text
  | .intermediate => if c < '0' then .within .intermediate else .text
  | .parameters => if c < '@' then .within .parameters else .text

/-- The place behind a printable character in the opening of a device string. -/
def Opening.next (o : Opening) (c : Char) : Place :=
  if c < '0' then .opening .intermediate
  else match o with
    | .entry => if c < '@' then .opening .parameters else .string
    | .parameters => if c < '<' then .opening .parameters else .string
    | .intermediate => .string

/-- The place behind a character that is not in ASCII, and whether it is kept. -/
def Place.stepWide (p : Place) (c : Char) : Place × Bool :=
  match p with
  | .text | .paused _ => (.text, true)
  | .string => (if hasTerminator c then .text else .string, false)
  | p => (p, false)

/-- The place behind a control character, and whether it is kept. -/
def Place.stepControl (p : Place) (c : Char) : Place × Bool :=
  if c = '\x1b' then (.within .escape, false)
  else if c = '\x18' ∨ c = '\x1a' then (.text, false)
  else match p with
    | .text => (.text, isKeptControl c)
    | .within s | .paused s =>
      if isKeptControl c then (.paused s, true) else (.within s, false)
    | .command => (if c = '\x07' then .text else .command, false)
    | p => (p, false)

/-- The place behind a printable character, and whether it is kept. -/
def Place.stepPrintable (p : Place) (c : Char) : Place × Bool :=
  match p with
  | .text | .paused _ => (p, true)
  | .within s => (s.next c, false)
  | .opening o => (o.next c, false)
  | .command | .string => (p, false)

/-- The place behind a character, and whether it is kept. -/
def Place.step (p : Place) (c : Char) : Place × Bool :=
  if isControl c then p.stepControl c
  else if c < '\x7f' then p.stepPrintable c
  else p.stepWide c

/-! ## Texts -/

/-- The characters that are kept from a place on. -/
def ofChars : Place → List Char → List Char
  | _, [] => []
  | p, c :: cs =>
    match p.step c with
    | (next, true) => c :: ofChars next cs
    | (next, false) => ofChars next cs

/-- The text without control sequences. -/
def plain (s : String) : String :=
  String.ofList (ofChars .text s.toList)

@[simp] theorem toList_plain (s : String) : (plain s).toList = ofChars .text s.toList := by
  simp [plain]

/-- A character that is no control character is kept in the text. -/
theorem step_text {c : Char} (h : isControl c = false) :
    Place.text.step c = (.text, true) := by
  by_cases hc : c < '\x7f' <;> simp [Place.step, Place.stepPrintable, Place.stepWide, h, hc]

/-- Text without control characters is left as it is. -/
theorem ofChars_eq_self {cs : List Char} (h : ∀ c ∈ cs, isControl c = false) :
    ofChars .text cs = cs := by
  induction cs with
  | nil => rfl
  | cons c cs ih =>
    simp [ofChars, step_text (h c (by simp)), ih fun d hd => h d (by simp [hd])]

example : ofChars .text ['\x1b', '[', '1', 'm', 'a', '\x1b', '[', '0', 'm'] = ['a'] := by decide
example : ofChars .text ['\x1b', '[', '\t', 'a', '\x01', 'm', 'b'] = ['\t', 'a', 'b'] := by decide
example : ofChars .text ['\x1b', ']', 'a', '\x07', 'b'] = ['b'] := by decide

end SelectSql.Text.Plain
