import TidySql.Text.Utf8

/-! The words of SQL, as far as layout has to tell them apart. -/
namespace TidySql

/-- What a lexeme is. A word is a keyword, a name, a number, or any other run of
characters that no other rule takes. -/
inductive Kind where
  | word
  | quoted
  | comment
  | openParen
  | closeParen
  | comma
  | semicolon
  | operator
  deriving DecidableEq, Repr

namespace Kind

def all : List Kind :=
  [.word, .quoted, .comment, .openParen, .closeParen, .comma, .semicolon, .operator]

def name : Kind → String
  | word => "Word"
  | quoted => "Quoted"
  | comment => "Comment"
  | openParen => "OpenParen"
  | closeParen => "CloseParen"
  | comma => "Comma"
  | semicolon => "Semicolon"
  | operator => "Operator"

def ofName? (s : String) : Option Kind := all.find? fun k => k.name == s

def isPunctuation : Kind → Bool
  | openParen | closeParen | comma | semicolon => true
  | _ => false

/-- The text is opaque: nothing inside it is read as SQL. -/
def isVerbatim : Kind → Bool
  | quoted | comment => true
  | _ => false

end Kind

/-- A piece of SQL text with its kind, delimiters included. -/
structure Lexeme where
  kind : Kind
  text : List Char
  deriving DecidableEq, Repr

/-- A lexeme and the half-open byte span that it takes in the source. -/
structure Token extends Lexeme where
  start : Nat
  stop : Nat
  deriving DecidableEq, Repr

end TidySql
