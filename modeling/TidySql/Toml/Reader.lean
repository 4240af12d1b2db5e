import TidySql.Toml.Failure
import TidySql.Toml.Number

/-! The parts of a TOML document: blank space, strings, keys and values. -/
namespace TidySql.Toml

/-- Reads from the front of a text, and leaves the rest or fails at it. -/
abbrev Reader := StateT (List Char) (Except Failure)

namespace Reader

def fail {α : Type} (p : Problem) : Reader α := fun cs => .error ⟨cs, p⟩

def peek? : Reader (Option Char) := fun cs => .ok (cs.head?, cs)

def skip (n : Nat) : Reader Unit := fun cs => .ok ((), cs.drop n)

/-- The given text is next, and is read. -/
def accept (text : String) : Reader Bool := fun cs =>
  if text.toList.isPrefixOf cs then .ok (true, cs.drop text.toList.length) else .ok (false, cs)

def expect (text : String) (p : Problem) : Reader Unit := do
  if ← accept text then return () else fail p

def takeWhile (p : Char → Bool) : Reader (List Char) := fun cs =>
  .ok (cs.takeWhile p, cs.dropWhile p)

def collect {α : Type} (step : Reader (Option α)) : Nat → Reader (List α)
  | 0 => pure []
  | n + 1 => do
    match ← step with
    | none => return []
    | some a => return a :: (← collect step n)

/-- Repeats a reader until it has nothing more to give. It must take at least one
character for each thing that it gives, so the length of the text is a bound. -/
def many {α : Type} (step : Reader (Option α)) : Reader (List α) := do
  collect step ((← get).length + 1)

def isSpace (c : Char) : Bool := c == ' ' || c == '\t'

def skipSpaces : Reader Unit := do discard (takeWhile isSpace)

/-- Neither a control character other than a tab, nor a line end. -/
def isPrintable (c : Char) : Bool := c == '\t' || (decide (' ' ≤ c) && c != '\x7f')

/-- A line end: a line feed, which a carriage return may precede. -/
def acceptNewline : Reader Bool := do
  if ← accept "\n" then return true else accept "\r\n"

def skipComment : Reader Unit := do
  if (← peek?) = some '#' then discard (takeWhile isPrintable)

/-- What may follow an item on its line: spaces and a comment. -/
def endLine (p : Problem) : Reader Unit := do
  skipSpaces
  skipComment
  if (← peek?).isSome then
    if !(← acceptNewline) then fail p

/-- The blank space between the items of an array, which may hold comments. -/
def skipLines : Reader Unit := do
  let _ ← many do
    skipSpaces
    skipComment
    return if ← acceptNewline then some () else none

/-- The character whose number is written with `n` hexadecimal digits. -/
def scalar (n : Nat) : Reader Char := do
  let ds := (← get).take n
  match if ds.length = n then Number.natural? 16 ds else none with
  | none => fail .escape
  | some code =>
    if h : code.isValidChar then do
      skip n
      return Char.ofNatAux code h
    else fail .escape

def escape : Reader Char := do
  let c ← peek?
  skip 1
  match c with
  | some 'b' => return '\x08'
  | some 'f' => return '\x0c'
  | some 'n' => return '\n'
  | some 'r' => return '\r'
  | some 't' => return '\t'
  | some 'u' => scalar 4
  | some 'U' => scalar 8
  | some '\\' => return '\\'
  | some '\x22' => return '\x22'
  | _ => fail .escape

/-- The content of a string on one line, up to its closing quotation mark. -/
def basicBody : Reader (List Char) := do
  let body ← many do
    match ← peek? with
    | some '\\' => do skip 1; return some (← escape)
    | some c => if isPrintable c ∧ c ≠ '\x22' then do skip 1; return some c else return none
    | none => return none
  expect "\"" .basicString
  return body

def literalBody : Reader (List Char) := do
  let body ← takeWhile fun c => isPrintable c && c != '\x27'
  expect "'" .literalString
  return body

/-- The quotes that end a string of several lines. The last three close it, and up
to two before them belong to its content. -/
def closeMultiline (quote : Char) (p : Problem) : Reader (List Char) := do
  let run := (← get).takeWhile (· == quote)
  if run.length < 3 then fail p
  else do
    let n := min run.length 5
    skip n
    return List.replicate (n - 3) quote

/-- The next piece of a string of several lines: a run of one or two quotes, a line
end, which is always read as a line feed, or one character. -/
def multilinePiece (quote : Char) : Reader (Option (List Char)) := do
  let cs ← get
  match cs with
  | [] => return none
  | c :: _ =>
    if c = quote then
      let run := cs.takeWhile (· == quote)
      if run.length < 3 then do skip run.length; return some run else return none
    else if isPrintable c then do skip 1; return some [c]
    else return if ← acceptNewline then some ['\n'] else none

/-- A backslash at the end of a line joins it with the next text. -/
def acceptJoin : Reader Bool := do
  let before ← get
  skip 1
  skipSpaces
  if ← acceptNewline then
    let _ ← many do
      skipSpaces
      return if ← acceptNewline then some () else none
    return true
  else
    set before
    return false

def multilineBasicBody : Reader (List Char) := do
  discard acceptNewline
  let body ← many do
    if (← peek?) = some '\\' then
      if ← acceptJoin then return some []
      else do skip 1; return some [← escape]
    else multilinePiece '\x22'
  return body.flatten ++ (← closeMultiline '\x22' .multilineBasicString)

def multilineLiteralBody : Reader (List Char) := do
  discard acceptNewline
  let body ← many (multilinePiece '\x27')
  return body.flatten ++ (← closeMultiline '\x27' .multilineLiteralString)

/-- One part of a key: bare, or quoted as a string is. -/
def simpleKey : Reader (List Char) := do
  if ← accept "\"" then basicBody
  else if ← accept "'" then literalBody
  else do
    let key ← takeWhile fun c => c.isAlphanum || c == '_' || c == '-'
    if key.isEmpty then fail .key else return key

/-- The longest key of several parts, and the deepest nesting of values. -/
def maxDepth : Nat := 80

/-- A key with its parts, which points separate. A point that no part follows is
not read. -/
def key : Reader (List (List Char)) := do
  let start ← get
  skipSpaces
  let first ← simpleKey
  skipSpaces
  let more ← many do
    let before ← get
    if ← accept "." then
      skipSpaces
      let c ← peek?
      if c.any fun c => c.isAlphanum || ['_', '-', '\x22', '\x27'].contains c then do
        let part ← simpleKey
        skipSpaces
        return some part
      else do
        set before
        return none
    else return none
  if more.length + 1 ≥ maxDepth then do
    set start
    fail .nesting
  else return first :: more

/-- A number or a moment in time. One space may part a date from its time. -/
def number : Reader Value := do
  let cs ← get
  let run := cs.takeWhile Number.isPart
  let whole :=
    match cs.drop run.length with
    | ' ' :: c :: rest =>
      if Number.isDate run ∧ c.isDigit then
        run ++ ' ' :: (c :: rest).takeWhile Number.isPart
      else run
    | _ => run
  match Number.value? whole with
  | some v => do skip whole.length; return v
  | none => fail .number

end Reader
end TidySql.Toml
