import TidySql.Text.Utf8
import TidySql.Token.Lexer

/-! The scan of SQL text, over its bytes.
Every mark is ASCII, so it is looked for among the bytes, and a byte of a longer character
is never taken for one. Only blanks beyond ASCII have to be decoded. The length of a
lexeme is counted in bytes, and from after its first one. -/
namespace TidySql
open Text

namespace Scan

def byte (c : Char) : UInt8 := c.toUInt8

/-- The character with the number of the byte. No mark is among those beyond ASCII. -/
def mark (b : UInt8) : Char := Char.ofUInt8 b

def stopsQuoted (quote b : UInt8) : Bool := b == quote || b == byte '\\'

/-- The search goes from one quote or backslash to the next, and a backslash takes one byte
with it. -/
def quotedLength (quote : UInt8) (bytes : List UInt8) : Nat :=
  match bytes.findIdx? (stopsQuoted quote) with
  | none => bytes.length
  | some i =>
    match _h : bytes.drop i with
    | b :: next :: rest =>
      if b = byte '\\' ∨ next = quote then i + 2 + quotedLength quote rest else i + 1
    | _ => i + 1
termination_by bytes.length
decreasing_by
  have := congrArg List.length _h
  simp only [List.length_drop, List.length_cons] at this
  omega

def stopsLine (b : UInt8) : Bool := b == byte '\n' || b == byte '\r'

def lineLength (bytes : List UInt8) : Nat :=
  match (bytes.drop 1).findIdx? stopsLine with
  | none => bytes.length
  | some i => i + 1

def findPair? (a b : UInt8) : List UInt8 → Option Nat
  | c :: d :: bytes =>
    if c = a ∧ d = b then some 0 else (findPair? a b (d :: bytes)).map (· + 1)
  | _ => none

def blockLength (bytes : List UInt8) : Nat :=
  match findPair? (byte '*') (byte '/') (bytes.drop 1) with
  | none => bytes.length
  | some i => i + 3

def operatorLength (b : UInt8) (bytes : List UInt8) : Nat :=
  if bytes.head?.any fun d => Lexer.isOperatorPair (mark b) (mark d) then 1 else 0

/-- The kind and the length of the lexeme that the byte begins. There is none if the byte
is blank or part of a word. -/
def marked? (b : UInt8) (bytes : List UInt8) : Option (Kind × Nat) :=
  if Lexer.isQuote (mark b) then some (.quoted, quotedLength b bytes)
  else if b = byte '-' ∧ bytes.head? = some (byte '-') then some (.comment, lineLength bytes)
  else if b = byte '/' ∧ bytes.head? = some (byte '*') then some (.comment, blockLength bytes)
  else match Lexer.punctuation? (mark b) with
    | some k => some (k, 0)
    | none => if Lexer.isOperator (mark b) then some (.operator, operatorLength b bytes) else none

/-- The first character of the bytes. There is none if they begin inside a character. -/
def firstChar? (bytes : List UInt8) : Option Char := (bytes.take 4).toByteArray.utf8DecodeChar? 0

def blanks : List UInt8 := [' ', '\t', '\n', '\r', '\x0b', '\x0c'].map byte

/-- The length of the blank character that the byte begins. It is 0 for any other one. -/
def blankLength? (b : UInt8) (bytes : List UInt8) : Option Nat :=
  if b < 0x80 then some (if blanks.contains b then 1 else 0)
  else (firstChar? (b :: bytes)).map fun c => if isBlank c then c.utf8Size else 0

def charLength (b : UInt8) : Nat :=
  if b ≤ 0x7F then 1
  else if 0xC0 ≤ b ∧ b ≤ 0xDF then 2
  else if 0xE0 ≤ b ∧ b ≤ 0xEF then 3
  else 4

/-- The text of a span. There is none if the span leaves the source or cuts a character. -/
def slice? (source : List UInt8) (start stop : Nat) : Option (List Char) :=
  let bytes := (source.drop start).take (stop - start)
  if bytes.length = stop - start then decode? bytes else none

def token? (source : List UInt8) (kind : Kind) (start stop : Nat) : Option Token :=
  (slice? source start stop).map fun text => ⟨⟨kind, text⟩, start, stop⟩

def flush? (source : List UInt8) (word : Option Nat) (stop : Nat) : Option (List Token) :=
  match word with
  | none => some []
  | some start => (token? source .word start stop).map fun t => [t]

/-- Scans the bytes that the source has from a position on. `word` is where the pending
word starts. -/
def tokensFrom? (source : List UInt8) (position : Nat) (word : Option Nat) :
    List UInt8 → Option (List Token)
  | [] => flush? source word position
  | b :: bytes =>
    match marked? b bytes with
    | some (kind, n) => do
      let before ← flush? source word position
      let token ← token? source kind position (position + (n + 1))
      let after ← tokensFrom? source (position + (n + 1)) none (bytes.drop n)
      return before ++ token :: after
    | none => do
      match ← blankLength? b bytes with
      | 0 =>
        let n := charLength b
        tokensFrom? source (position + n) (some (word.getD position)) (bytes.drop (n - 1))
      | n + 1 =>
        let before ← flush? source word position
        let after ← tokensFrom? source (position + (n + 1)) none (bytes.drop n)
        return before ++ after
termination_by bytes => bytes.length

/-- The tokens of a source. There are none if a span would cut a character. -/
def tokens? (source : List UInt8) : Option (List Token) := tokensFrom? source 0 none source

end Scan

/-- The tokens of a text in order, with their byte spans. -/
def tokenize (source : List Char) : List Token := (Scan.tokens? (encode source)).getD []

end TidySql
