import TidySql.Keyword
import TidySql.Token

/-! The units of layout.
Two neighbouring words that make a compound keyword are one unit, and every other
lexeme is a unit by itself. Pairs are taken from left to right, so a word is never
in two of them. -/
namespace TidySql

inductive Phrase where
  | compound (k : Compound)
  | single (l : Lexeme)
  deriving DecidableEq, Repr

namespace Phrase

/-- The compound keyword that two lexemes make, if both are words. -/
def compoundOf? (a b : Lexeme) : Option Compound :=
  if a.kind = .word ∧ b.kind = .word then Compound.find? a.text b.text else none

def group : List Lexeme → List Phrase
  | [] => []
  | [a] => [single a]
  | a :: b :: ls =>
    match compoundOf? a b with
    | some k => compound k :: group ls
    | none => single a :: group (b :: ls)

end Phrase
end TidySql
