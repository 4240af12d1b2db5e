/-! Tables of code points. -/
namespace TidySql.Text

abbrev Ranges := List (Nat × Nat)

def Ranges.contains (t : Ranges) (n : Nat) : Bool :=
  t.any fun (low, high) => decide (low ≤ n) && decide (n ≤ high)

end TidySql.Text
