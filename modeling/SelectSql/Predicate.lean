import SelectSql.Query

/-!
# SelectSql.Predicate

Making predicates: comparisons that know about patterns, negation, and alternatives.
-/

namespace SelectSql.Predicate

/-- A column compared with a value. Pattern operators become pattern matches with the
text of the value; the operators for negated patterns turn the negation around. -/
def compare (column : String) (op : Operator) (value : Value) (negated : Bool) : Predicate :=
  match op with
  | .like => .pattern column value.plainText negated {}
  | .notLike => .pattern column value.plainText (!negated) {}
  | .ilike => .pattern column value.plainText negated { caseSensitive := false }
  | .notIlike => .pattern column value.plainText (!negated) { caseSensitive := false }
  | op => .comparison column op value negated

/-- The negated predicate. A NULL check is turned around, every other predicate is
marked as negated, and alternatives stay as they are. -/
def negation : Predicate → Predicate
  | .comparison column op value _ => .comparison column op value true
  | .columnComparison column op other _ => .columnComparison column op other true
  | .nullCheck column negated => .nullCheck column (!negated)
  | .fullText column value _ => .fullText column value true
  | .pattern column value _ options => .pattern column value true options
  | .inSet column source _ => .inSet column source true
  | .anyOf alternatives => .anyOf alternatives

/-- Whether the predicate is a group of alternatives. -/
def isAnyOf : Predicate → Bool
  | .anyOf _ => true
  | _ => false

/-- The alternatives that a predicate stands for. -/
def alternatives : Predicate → List Predicate
  | .anyOf ps => ps
  | p => [p]

/-- A predicate or, alternatively, another one, which joins the alternatives there are. -/
def orElse (p next : Predicate) : Predicate :=
  .anyOf (p.alternatives ++ [next])

end SelectSql.Predicate
