import SelectSql.Operator

/-!
# SelectSql.Query.Names

The names of operators, connectives, aggregates and kinds of join in documents.
-/

namespace SelectSql

namespace Operator

/-- All operators. -/
def all : List Operator :=
  [.eq, .ne, .gt, .ge, .lt, .le, .like, .notLike, .ilike, .notIlike]

/-- The name of an operator in documents. -/
def name : Operator → String
  | .eq => "Eq"
  | .ne => "Ne"
  | .gt => "Gt"
  | .ge => "Gte"
  | .lt => "Lt"
  | .le => "Lte"
  | .like => "Like"
  | .notLike => "NotLike"
  | .ilike => "ILike"
  | .notIlike => "NotILike"

/-- The operator of a name. -/
def ofName? (name : String) : Option Operator :=
  all.find? fun op => op.name == name

end Operator

namespace Connective

/-- The name of a connective in documents. -/
def name : Connective → String
  | .and => "and"
  | .or => "or"

/-- The connective of a name. -/
def ofName? (name : String) : Option Connective :=
  [Connective.and, .or].find? fun c => c.name == name

end Connective

namespace Aggregate

/-- The name of an aggregate function in documents. -/
def name : Aggregate → String
  | .count => "Count"
  | .min => "Min"
  | .max => "Max"
  | .sum => "Sum"

/-- The aggregate function of a name. -/
def ofName? (name : String) : Option Aggregate :=
  [Aggregate.count, .min, .max, .sum].find? fun a => a.name == name

end Aggregate

namespace JoinKind

/-- The name of a kind of join in documents. -/
def name : JoinKind → String
  | .inner => "inner"
  | .left => "left"
  | .right => "right"
  | .full => "full"
  | .cross => "cross"

/-- The kind of join of a name. -/
def ofName? (name : String) : Option JoinKind :=
  [JoinKind.inner, .left, .right, .full, .cross].find? fun k => k.name == name

end JoinKind

end SelectSql
