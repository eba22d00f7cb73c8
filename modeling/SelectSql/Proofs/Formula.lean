import SelectSql.Proofs.Tokens

/-!
# SelectSql.Proofs.Formula

Reading the text of a condition the way an engine does: NOT binds tighter than AND, and
AND tighter than OR; parentheses group, and nothing is read inside literals. What is
neither combined nor negated nor in parentheses is an atom, known by its text.

Design points:

* **One pass with a stack** (`Reading.step`): an opening parenthesis puts the parts so
  far aside, a closing one makes a group of the parts since.
* **Precedence is the order of cutting** (`Formula.combine`): parts are cut at OR first,
  then at AND, and then the NOTs in front are taken off.
* **A group keeps its tokens**, for where it is not a condition by itself but the
  argument of a function or the set of a membership test.
-/

namespace SelectSql

/-! ## Formulas -/

/-- A condition over atoms. -/
inductive Formula
  | atom (text : String)
  | not (f : Formula)
  | and (f g : Formula)
  | or (f g : Formula)
deriving DecidableEq

namespace Formula

/-- Whether a formula holds, given which atoms do. -/
def eval (truth : String → Bool) : Formula → Bool
  | atom text => truth text
  | not f => !f.eval truth
  | and f g => f.eval truth && g.eval truth
  | or f g => f.eval truth || g.eval truth

/-- All of some formulas, at least one. -/
def all : List Formula → Formula
  | [] => atom ""
  | [f] => f
  | f :: g :: fs => f.and (all (g :: fs))

/-- One of some formulas, at least one. -/
def any : List Formula → Formula
  | [] => atom ""
  | [f] => f
  | f :: g :: fs => f.or (any (g :: fs))

theorem eval_all (truth : String → Bool) {fs : List Formula} (h : fs ≠ []) :
    (all fs).eval truth = fs.all (eval truth) := by
  induction fs with
  | nil => exact absurd rfl h
  | cons f fs ih =>
      cases fs with
      | nil => simp [all]
      | cons g fs => rw [all, eval, ih (by simp)]; rfl

theorem eval_any (truth : String → Bool) {fs : List Formula} (h : fs ≠ []) :
    (any fs).eval truth = fs.any (eval truth) := by
  induction fs with
  | nil => exact absurd rfl h
  | cons f fs ih =>
      cases fs with
      | nil => simp [any]
      | cons g fs => rw [any, eval, ih (by simp)]; rfl

end Formula

/-! ## Parts of conditions -/

/-- A token, or a group with the tokens in its parentheses and what they mean as a
condition. -/
inductive Part
  | token (t : Token)
  | group (inner : List Token) (meaning : Formula)

namespace Part

/-- The tokens of a part. -/
def tokens : Part → List Token
  | token t => [t]
  | group inner _ => .sign '(' :: (inner ++ [.sign ')'])

/-- Whether a part is a blank. -/
def isBlank : Part → Bool
  | token t => t.isBlank
  | group _ _ => false

/-- Whether a part is a keyword. -/
def isKeyword (keyword : String) : Part → Bool
  | token t => t.isKeyword keyword
  | group _ _ => false

end Part

namespace Formula

/-- The tokens of parts in a row. -/
def tokens (parts : List Part) : List Token :=
  parts.flatMap Part.tokens

/-- What remains behind the NOTs: the meaning of a group, or an atom. -/
def primary : List Part → Formula
  | [.group _ f] => f
  | parts => atom (String.ofList ((tokens parts).flatMap Token.chars))

/-- Takes the NOTs in front off. -/
def negations : List Part → Formula
  | [] => primary []
  | p :: parts =>
    if p.isBlank then negations parts
    else if p.isKeyword "NOT" then not (negations parts)
    else primary (p :: parts)

/-- The meaning of parts without AND and OR. -/
def factor (parts : List Part) : Formula :=
  negations (Text.trimBy Part.isBlank parts)

/-- The meaning of parts: one of what stands between the ORs, each of it all of what
stands between the ANDs. -/
def combine (parts : List Part) : Formula :=
  any ((parts.splitOnP (Part.isKeyword "OR")).map fun term =>
    all ((term.splitOnP (Part.isKeyword "AND")).map factor))

/-! ## Reading -/

end Formula

/-- Where reading stands: the parts of the innermost parentheses, and those around them
from the inside out. -/
structure Reading where
  parts : List Part := []
  outer : List (List Part) := []

/-- Reads one token. A parenthesis cannot be closed that is not open. -/
def Reading.step (s : Reading) (t : Token) : Option Reading :=
  if t = .sign '(' then some ⟨[], s.parts :: s.outer⟩
  else if t = .sign ')' then
    match s.outer with
    | [] => none
    | around :: outer =>
      some ⟨around ++ [.group (Formula.tokens s.parts) (Formula.combine s.parts)], outer⟩
  else some ⟨s.parts ++ [.token t], s.outer⟩

namespace Formula

/-- The formula that a text is read as, if its quotes and parentheses are balanced. -/
def read (text : String) : Option Formula :=
  if Text.insideAfter false text.toList then none
  else match (lex false text.toList).foldlM Reading.step {} with
    | some ⟨parts, []⟩ => some (combine parts)
    | _ => none

/-- The formula of a text that is taken for an atom, NOTs in front of it apart. -/
def literal (text : String) : Formula :=
  factor ((lex false text.toList).map .token)

/-- OR binds weaker than AND, parentheses group, and literals are skipped. -/
example : read "a = 'x OR y' OR not (b = 1) AND c = 2" = some
    ((atom "a = 'x OR y'").or (((atom "b = 1").not).and (atom "c = 2"))) := by
  decide +kernel

end Formula

end SelectSql
