import TidySql.Keyword

/-! The clause that layout is in, which decides where lists and conditions break. -/
namespace TidySql

inductive Clause where
  | select
  | fromSource
  | whereFilter
  | groupBy
  | orderBy
  | having
  | set
  | values
  | join
  | on
  | other
  deriving DecidableEq, Repr

namespace Clause

/-- The clause that a keyword begins, given in upper case. -/
def ofKeyword (word : List Char) : Clause :=
  if word = "SELECT".toList then select
  else if word = "FROM".toList then fromSource
  else if word = "WHERE".toList then whereFilter
  else if word = "HAVING".toList then having
  else if word = "GROUP BY".toList then groupBy
  else if word = "ORDER BY".toList then orderBy
  else if word = "SET".toList then set
  else if word = "VALUES".toList then values
  else if word = "ON".toList then on
  else if word = "JOIN".toList ∨ " JOIN".toList <:+ word then join
  else other

def name : Clause → String
  | select => "Select"
  | fromSource => "From"
  | whereFilter => "Where"
  | groupBy => "GroupBy"
  | orderBy => "OrderBy"
  | having => "Having"
  | set => "Set"
  | values => "Values"
  | join => "Join"
  | on => "On"
  | other => "Other"

/-- A list in this clause has one item on each line. -/
def breaksAfterComma : Clause → Bool
  | select | groupBy | orderBy | set => true
  | _ => false

/-- A condition in this clause starts a line of its own, one level deeper. -/
def breaksOnCondition : Clause → Bool
  | whereFilter | having | on => true
  | _ => false

end Clause
end TidySql
