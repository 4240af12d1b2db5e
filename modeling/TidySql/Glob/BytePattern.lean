import TidySql.Text.Utf8

/-! Patterns of byte strings.
A pattern is matched by the list of what it can leave of a string, so that one
definition serves all its forms. -/
namespace TidySql.Glob

inductive BytePattern where
  | empty
  /-- One byte inside the ranges, or outside of them if negated. -/
  | one (negated : Bool) (ranges : List (UInt8 × UInt8))
  | many
  | append (a b : BytePattern)
  | either (a b : BytePattern)
  deriving DecidableEq, Repr

namespace BytePattern

/-- The string and what is left of it after each of its bytes. -/
def tails : List UInt8 → List (List UInt8)
  | [] => [[]]
  | b :: bs => (b :: bs) :: tails bs

/-- What a pattern can leave of a string of which it takes the front. -/
def remainders : BytePattern → List UInt8 → List (List UInt8)
  | empty, s => [s]
  | one _ _, [] => []
  | one negated ranges, b :: s =>
    if (ranges.any fun (low, high) => decide (low ≤ b) && decide (b ≤ high)) = negated then []
    else [s]
  | many, s => tails s
  | append a b, s => ((a.remainders s).flatMap b.remainders).eraseDups
  | either a b, s => (a.remainders s ++ b.remainders s).eraseDups

def accepts (p : BytePattern) (s : List UInt8) : Bool := (p.remainders s).contains []

def byte (b : UInt8) : BytePattern := one false [(b, b)]

def any : BytePattern := one true []

def char (c : Char) : BytePattern :=
  (Text.encode [c]).foldr (fun b p => if p = empty then byte b else append (byte b) p) empty

end BytePattern
end TidySql.Glob
