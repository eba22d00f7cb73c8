import SelectSql.Text.Alphanumeric.Table

/-!
# SelectSql.Text.Alphanumeric

The character classes of names: letters and digits of any script, and the marks
that identifiers, operands and table names add to them.
-/

namespace SelectSql.Text

/-- An ASCII letter or digit. -/
def isAsciiAlphanumeric (c : Char) : Bool :=
  c.isAlphanum

/-- A letter or digit of any script: Unicode Alphabetic, or a numeric general category. -/
def isAlphanumeric (c : Char) : Bool :=
  if c.toNat < 0x80 then isAsciiAlphanumeric c
  else alphanumericRanges.any fun r => r.1 ≤ c.toNat && c.toNat ≤ r.2

/-- On ASCII the class is that of ASCII letters and digits. -/
theorem isAlphanumeric_of_lt {c : Char} (h : c.toNat < 0x80) :
    isAlphanumeric c = isAsciiAlphanumeric c := by
  simp [isAlphanumeric, h]

/-- The characters of a table name: letters, digits and the underscore. -/
def isNameChar (c : Char) : Bool :=
  isAlphanumeric c || c == '_'

/-- The characters of a column reference: those of a name, the dot and braces. -/
def isReferenceChar (c : Char) : Bool :=
  isAlphanumeric c || c == '_' || c == '.' || c == '{' || c == '}'

/-- The characters of an unquoted operand: those of a reference and the minus sign. -/
def isOperandChar (c : Char) : Bool :=
  isReferenceChar c || c == '-'

end SelectSql.Text
