import TidySql.Layout

/-! What stands between two phrases, told without a state.
The phrases before a place, the nearest first, give the clause and the open parentheses
there, and with the two phrases beside the place they give the separator. Layout writes
its text piece by piece and takes spaces back. That it writes these separators is proved
with the theory of layout. -/
namespace TidySql

namespace Phrase

def isKind (k : Kind) : Phrase → Bool
  | compound _ => false
  | single l => l.kind == k

/-- The keyword, in upper case, with which the phrase begins a clause. -/
def keyword? : Phrase → Option (List Char)
  | compound k => some k.text
  | single l =>
    if l.kind = .word ∧ Keyword.isClause (Text.upper l.text) then some (Text.upper l.text) else none

def isConnective : Phrase → Bool
  | compound _ => false
  | single l => l.kind == .word && Keyword.isConnective (Text.upper l.text)

/-- The word that ends the phrase, in upper case. Only words and compounds end with one. -/
def lastWord : Phrase → List Char
  | compound k => k.second
  | single l => if l.kind = .word then Text.upper l.text else []

end Phrase

namespace Layout
open Phrase

/-- The clause of the last keyword since the last semicolon. -/
def clauseAfter (past : List Phrase) : Option Clause :=
  ((past.takeWhile fun p => !p.isKind .semicolon).findSome? keyword?).map Clause.ofKeyword

/-- How a parenthesis opens after the phrases. -/
def opening (past : List Phrase) : Paren := Paren.after (past.head?.elim [] lastWord)

/-- The parentheses that are still open, the innermost first, if the `n` innermost of
them are closed later on. A closing one with no partner closes nothing. -/
def openParens : Nat → List Phrase → List Paren
  | _, [] => []
  | n, p :: past =>
    if p.isKind .closeParen then openParens (n + 1) past
    else if p.isKind .openParen then
      match n with
      | 0 => opening past :: openParens 0 past
      | n + 1 => openParens n past
    else openParens n past

/-- How a parenthesis closes after the phrases: as the one that it closes was opened, or
as a block if there is none. -/
def closing (past : List Phrase) : Paren := (openParens 0 past).head?.getD .block

def isOpening (s : Paren) (past : List Phrase) (p : Phrase) : Bool :=
  p.isKind .openParen && opening past == s

def isClosing (s : Paren) (past : List Phrase) (p : Phrase) : Bool :=
  p.isKind .closeParen && closing past == s

/-- The line ends after the phrase. -/
def endsLine (past : List Phrase) (p : Phrase) : Bool :=
  p.isKind .comment || p.isKind .semicolon || isOpening .block past p ||
    (p.isKind .comma && (clauseAfter past).any Clause.breaksAfterComma)

/-- A condition that starts a line, one level deeper than its clause. -/
def isCondition (past : List Phrase) (p : Phrase) : Bool :=
  p.isConnective && (clauseAfter past).any Clause.breaksOnCondition

/-- The phrase starts a line. -/
def startsLine (past : List Phrase) (p : Phrase) : Bool :=
  p.isKind .comment || isClosing .block past p || p.keyword?.isSome || isCondition past p

/-- The phrase stands directly after what is before it, on whichever line. -/
def isAttached (past : List Phrase) (p : Phrase) : Bool :=
  p.isKind .comma || p.isKind .semicolon || isOpening .inline past p || isClosing .inline past p

/-- The level of the phrase if it starts a line: the number of open blocks, less the block
that it closes. -/
def level (past : List Phrase) (p : Phrase) : Nat :=
  let depth := (openParens 0 past).count .block
  if isAttached past p then 0
  else if isClosing .block past p then depth - 1
  else if isCondition past p then depth + 1
  else depth

/-- What stands between `u` and `v` if the phrases `past` are before `u`. -/
def separator (o : Options) (past : List Phrase) (u v : Phrase) : List Char :=
  if endsLine past u || startsLine (u :: past) v then '\n' :: o.margin (level (u :: past) v)
  else if isAttached (u :: past) v || (isOpening .inline past u && !isOpening .block (u :: past) v)
  then []
  else [' ']

/-- What stands before a phrase. Nothing stands before the first one. -/
def separatorAfter (o : Options) : List Phrase → Phrase → List Char
  | [], _ => []
  | u :: past, v => separator o past u v

end Layout
end TidySql
