import TidySql.Text.Blank
import TidySql.Token

/-! The marks of SQL text, and its scan over characters.
The scan goes from left to right and cuts the text into pieces, each a blank character
or a lexeme. Nothing is refused: a quote or a block comment that is never closed
runs to the end, and a character that no rule takes becomes part of a word. The
pieces in order spell the text again, and this is `flatten_pieces`. What runs is the
scan over bytes in `Scan`, which cuts the text at the same places. -/
namespace TidySql
open Text

/-- What one step of the scan takes. A blank character only separates. -/
inductive Piece where
  | blank (c : Char)
  | lexeme (l : Lexeme)
  deriving DecidableEq, Repr

namespace Piece

def text : Piece → List Char
  | blank c => [c]
  | lexeme l => l.text

def lexeme? : Piece → Option Lexeme
  | blank _ => none
  | lexeme l => some l

end Piece

namespace Lexer

/-- Apostrophe, quotation mark and grave accent. Each is closed by itself. -/
def isQuote (c : Char) : Bool := c == '\x27' || c == '\x22' || c == '\x60'

def punctuation? : Char → Option Kind
  | '(' => some .openParen
  | ')' => some .closeParen
  | ',' => some .comma
  | ';' => some .semicolon
  | _ => none

def isOperator (c : Char) : Bool := ['=', '<', '>', '!', '+', '-', '*', '/', '%'].contains c

/-- The two characters are one operator: `<=`, `<>`, `>=` or `!=`. -/
def isOperatorPair (c d : Char) : Bool :=
  (c == '<' && (d == '=' || d == '>')) || ((c == '>' || c == '!') && d == '=')

def isLineEnd (c : Char) : Bool := c == '\n' || c == '\r'

def isWord (c : Char) : Bool :=
  !isBlank c && !isQuote c && (punctuation? c).isNone && !isOperator c

/-- Cuts after the quote that closes `q`. A backslash takes the next character
with it, and two quotes in a row are one quote of the content. -/
def cutQuoted (q : Char) : List Char → List Char × List Char
  | [] => ([], [])
  | [c] => ([c], [])
  | c :: d :: cs =>
    if c = '\\' ∨ (c = q ∧ d = q) then
      let s := cutQuoted q cs
      (c :: d :: s.1, s.2)
    else if c = q then ([c], d :: cs)
    else
      let s := cutQuoted q (d :: cs)
      (c :: s.1, s.2)

def cutLine (cs : List Char) : List Char × List Char :=
  (cs.takeWhile fun c => !isLineEnd c, cs.dropWhile fun c => !isLineEnd c)

/-- Cuts after the first `*/`. -/
def cutBlock : List Char → List Char × List Char
  | [] => ([], [])
  | [c] => ([c], [])
  | c :: d :: cs =>
    if c = '*' ∧ d = '/' then ([c, d], cs)
    else
      let s := cutBlock (d :: cs)
      (c :: s.1, s.2)

/-- Cuts after the second character of an operator that starts with `c`. -/
def cutOperator (c : Char) : List Char → List Char × List Char
  | [] => ([], [])
  | d :: cs => if isOperatorPair c d then ([d], cs) else ([], d :: cs)

def cutWord (cs : List Char) : List Char × List Char := (cs.takeWhile isWord, cs.dropWhile isWord)

/-- The kind of the lexeme that starts with `c`, and the cut of what follows `c`
into the rest of the lexeme and the rest of the text. The star that opens a block
comment cannot close it. -/
def cut (c : Char) (cs : List Char) : Kind × List Char × List Char :=
  if isQuote c then (.quoted, cutQuoted c cs)
  else if c = '-' ∧ cs.head? = some '-' then (.comment, cutLine cs)
  else if c = '/' ∧ cs.head? = some '*' then
    let s := cutBlock cs.tail
    (.comment, '*' :: s.1, s.2)
  else match punctuation? c with
    | some k => (k, [], cs)
    | none => if isOperator c then (.operator, cutOperator c cs) else (.word, cutWord cs)

/-- The first piece of a text that starts with `c`, and the text after it. -/
def next (c : Char) (cs : List Char) : Piece × List Char :=
  if isBlank c then (.blank c, cs)
  else
    let s := cut c cs
    (.lexeme ⟨s.1, c :: s.2.1⟩, s.2.2)

theorem cutQuoted_append (q : Char) (cs : List Char) :
    (cutQuoted q cs).1 ++ (cutQuoted q cs).2 = cs := by
  fun_induction cutQuoted q cs with
  | case1 => rfl
  | case2 => rfl
  | case3 c d cs _ s ih => exact congrArg (c :: d :: ·) ih
  | case4 => rfl
  | case5 c d cs _ _ s ih => exact congrArg (c :: ·) ih

theorem cutLine_append (cs : List Char) : (cutLine cs).1 ++ (cutLine cs).2 = cs :=
  List.takeWhile_append_dropWhile

theorem cutBlock_append (cs : List Char) : (cutBlock cs).1 ++ (cutBlock cs).2 = cs := by
  fun_induction cutBlock cs with
  | case1 => rfl
  | case2 => rfl
  | case3 => rfl
  | case4 c d cs _ s ih => exact congrArg (c :: ·) ih

theorem cutOperator_append (c : Char) (cs : List Char) :
    (cutOperator c cs).1 ++ (cutOperator c cs).2 = cs := by
  cases cs with
  | nil => rfl
  | cons d cs => by_cases h : isOperatorPair c d = true <;> simp [cutOperator, h]

theorem cutWord_append (cs : List Char) : (cutWord cs).1 ++ (cutWord cs).2 = cs :=
  List.takeWhile_append_dropWhile

theorem cut_append (c : Char) (cs : List Char) : (cut c cs).2.1 ++ (cut c cs).2.2 = cs := by
  unfold cut
  split
  · exact cutQuoted_append c cs
  · split
    · exact cutLine_append cs
    · split
      · rename_i h
        cases cs with
        | nil => simp at h
        | cons d cs =>
          obtain rfl : d = '*' := by simpa using h.2
          exact congrArg ('*' :: ·) (cutBlock_append cs)
      · split
        · rfl
        · split
          · exact cutOperator_append c cs
          · exact cutWord_append cs

theorem next_append (c : Char) (cs : List Char) :
    (next c cs).1.text ++ (next c cs).2 = c :: cs := by
  unfold next
  split
  · rfl
  · exact congrArg (c :: ·) (cut_append c cs)

theorem next_shorter (c : Char) (cs : List Char) : (next c cs).2.length < (c :: cs).length := by
  unfold next
  split
  · exact Nat.lt_succ_self _
  · have h := congrArg List.length (cut_append c cs)
    simp only [List.length_append] at h
    simp only [List.length_cons]
    omega

end Lexer

open Lexer in
def pieces : List Char → List Piece
  | [] => []
  | c :: cs =>
    match _h : next c cs with
    | (p, rest) => p :: pieces rest
termination_by cs => cs.length
decreasing_by
  have := next_shorter c cs
  simp_all

def lexemes (source : List Char) : List Lexeme := (pieces source).filterMap Piece.lexeme?

/-- Gives each lexeme its span, the first piece starting at byte `n`. -/
def place : Nat → List Piece → List Token
  | _, [] => []
  | n, .blank c :: ps => place (n + c.utf8Size) ps
  | n, .lexeme l :: ps => ⟨l, n, n + byteLength l.text⟩ :: place (n + byteLength l.text) ps

theorem pieces_cons (c : Char) (cs : List Char) :
    pieces (c :: cs) = (Lexer.next c cs).1 :: pieces (Lexer.next c cs).2 := by
  rw [pieces]

theorem flatten_pieces (source : List Char) :
    ((pieces source).map Piece.text).flatten = source := by
  fun_induction pieces source with
  | case1 => rfl
  | case2 c cs p rest h ih =>
    have := Lexer.next_append c cs
    rw [h] at this
    simpa [ih] using this

theorem map_toLexeme_place (n : Nat) (ps : List Piece) :
    (place n ps).map Token.toLexeme = ps.filterMap Piece.lexeme? := by
  fun_induction place n ps with
  | case1 => rfl
  | case2 n c ps ih => exact ih
  | case3 n l ps ih => exact congrArg (l :: ·) ih

end TidySql
