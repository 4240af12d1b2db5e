import TidySql.Clause
import TidySql.Layout.Buffer
import TidySql.Layout.Phrase

/-! Layout of SQL lexemes as lines of text.
One pass over the phrases writes each of them and decides from the state alone
where lines break and how deep they start. Clause keywords start lines, block
parentheses indent what they hold, and inline parentheses stay on their line. -/
namespace TidySql

structure Options where
  indentWidth : Nat := 4
  keywordCase : KeywordCase := .upper
  deriving DecidableEq, Repr

namespace Options

def maxWidth : Nat := 16

/-- The width in use: the nearest one between 1 and the widest. -/
def width (o : Options) : Nat := max 1 (min o.indentWidth maxWidth)

/-- The spaces that start a line at the given level. -/
def margin (o : Options) (level : Nat) : List Char := List.replicate (level * o.width) ' '

theorem one_le_width (o : Options) : 1 ≤ o.width := Nat.le_max_left _ _

theorem width_le_maxWidth (o : Options) : o.width ≤ maxWidth :=
  Nat.max_le.mpr ⟨by decide, Nat.min_le_right _ _⟩

end Options

inductive Paren where
  | inline
  | block
  deriving DecidableEq, Repr

def Paren.after (previous : List Char) : Paren :=
  if Keyword.opensInline previous then .inline else .block

namespace Layout

structure State where
  out : Buffer := .empty
  /-- The level of the next line. -/
  indent : Nat := 0
  atLineStart : Bool := true
  /-- No clause has begun since the last semicolon if there is none. -/
  clause : Option Clause := none
  /-- The last word in upper case. Empty after anything but a word. -/
  previous : List Char := []
  /-- The open parentheses, the innermost first. -/
  parens : List Paren := []
  deriving DecidableEq, Repr

namespace State

def breakLine (s : State) : State := { s with out := s.out.breakLine, atLineStart := true }

/-- Writes a text and a space after it, with the margin of the level if the text
starts a line. -/
def write (o : Options) (text : List Char) (level : Nat) (s : State) : State :=
  let margin := if s.atLineStart then o.margin level else []
  { s with out := s.out.append (margin ++ text ++ [' ']), atLineStart := false }

/-- Writes a text directly after what is there, without the padding before it. -/
def attach (text : List Char) (s : State) : State :=
  { s with out := s.out.trimPadding.append text, atLineStart := false }

/-- A keyword, given in upper case, that begins a clause. -/
def clauseKeyword (o : Options) (word : List Char) (s : State) : State :=
  { s.breakLine.write o (o.keywordCase.apply word) s.indent with
    clause := some (Clause.ofKeyword word) }

def comment (o : Options) (text : List Char) (s : State) : State :=
  { (s.breakLine.write o (Text.trim text) s.indent).breakLine with previous := [] }

def openParen (o : Options) (s : State) : State :=
  let paren := Paren.after s.previous
  let s := { s with parens := paren :: s.parens, previous := [] }
  match paren with
  | .inline => s.attach ['(']
  | .block =>
    let lead := if s.atLineStart then o.margin s.indent else [' ']
    { s.attach (lead ++ ['(']) with indent := s.indent + 1 }.breakLine

/-- A parenthesis that closes nothing is laid out as a block. -/
def closeParen (o : Options) (s : State) : State :=
  let paren := s.parens.head?.getD .block
  let s := { s with parens := s.parens.tail, previous := [] }
  match paren with
  | .inline => s.attach [')', ' ']
  | .block =>
    let s := { s with indent := s.indent - 1 }
    s.breakLine.write o [')'] s.indent

def comma (s : State) : State :=
  let s := { s with previous := [] }
  if s.clause.any Clause.breaksAfterComma then (s.attach [',']).breakLine
  else s.attach [',', ' ']

/-- A semicolon ends the statement and its clause. -/
def semicolon (s : State) : State :=
  { (s.attach [';']).breakLine with clause := none, previous := [] }

def word (o : Options) (text : List Char) (s : State) : State :=
  let word := Text.upper text
  let s' :=
    if Keyword.isClause word then s.clauseKeyword o word
    else if Keyword.isConnective word ∧ s.clause.any Clause.breaksOnCondition then
      s.breakLine.write o (o.keywordCase.apply word) (s.indent + 1)
    else if Keyword.isReserved word then s.write o (o.keywordCase.apply word) s.indent
    else s.write o text s.indent
  { s' with previous := word }

def verbatim (o : Options) (text : List Char) (s : State) : State :=
  { s.write o text s.indent with previous := [] }

/-- Writes one lexeme that is not part of a compound keyword. -/
def lexeme (o : Options) (l : Lexeme) (s : State) : State :=
  match l.kind with
  | .comment => s.comment o l.text
  | .openParen => s.openParen o
  | .closeParen => s.closeParen o
  | .comma => s.comma
  | .semicolon => s.semicolon
  | .word => s.word o l.text
  | .operator | .quoted => s.verbatim o l.text

def step (o : Options) (s : State) : Phrase → State
  | .compound k => { s.clauseKeyword o k.text with previous := k.second }
  | .single l => s.lexeme o l

end State

def run (o : Options) (ps : List Phrase) : State := ps.foldl (State.step o) {}

/-- Lays out lexemes as they are given, without blank space at either end. -/
def format (o : Options) (ls : List Lexeme) : List Char :=
  Text.trim (run o (Phrase.group ls)).out.toList

end Layout
end TidySql
