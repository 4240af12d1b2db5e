import TidySql.Text.Ascii
import TidySql.Token.Scan

/-! Comparison of two SQL texts by their tokens.
Formatting may move blank space and change the case of words, and nothing else. The
comparison says whether a result is such a change of its source, and if it is not,
where the two first differ. -/
namespace TidySql

/-- The first difference of two token lists. Positions count from 0. -/
inductive Mismatch where
  | count (source result : Nat)
  | kind (position : Nat) (source result : Lexeme)
  | text (position : Nat) (source result : Lexeme)
  deriving DecidableEq, Repr

namespace Mismatch

def message : Mismatch → String
  | count n m =>
    "Token count mismatch: original has " ++ toString n ++ " tokens, formatted has " ++ toString m
  | kind i a b =>
    "Token kind mismatch at position " ++ toString i ++ ": original " ++ a.kind.name ++ " '" ++
      String.ofList a.text ++ "', formatted " ++ b.kind.name ++ " '" ++ String.ofList b.text ++ "'"
  | text i a b =>
    "Token text mismatch at position " ++ toString i ++ ": original '" ++ String.ofList a.text ++
      "', formatted '" ++ String.ofList b.text ++ "'"

end Mismatch

namespace Equivalence

/-- Two texts of one kind say the same. Words may differ in case, and the other kinds
in blank space at the end. -/
def sameText (kind : Kind) (a b : List Char) : Bool :=
  if kind = .word then Text.equalIgnoringCase a b else Text.trimEnd a == Text.trimEnd b

/-- The first position from `i` on where two lists of one length differ. -/
def firstDifference : Nat → List Lexeme → List Lexeme → Option Mismatch
  | i, a :: as, b :: bs =>
    if a.kind ≠ b.kind then some (.kind i a b)
    else if !sameText a.kind a.text b.text then some (.text i a b)
    else firstDifference (i + 1) as bs
  | _, _, _ => none

/-- The difference of two texts, if there is one. The number of tokens is compared
before any of them. -/
def mismatch? (source result : List Char) : Option Mismatch :=
  let a := (tokenize source).map Token.toLexeme
  let b := (tokenize result).map Token.toLexeme
  if a.length ≠ b.length then some (.count a.length b.length) else firstDifference 0 a b

end Equivalence
end TidySql
