import TidySql.Text.Utf8

/-! Why a TOML document is refused, and where. -/
namespace TidySql.Toml

inductive Problem where
  | key
  | separator
  | value
  | missingValue
  | lineEnd
  | headerEnd
  | headerLineEnd
  | arrayEnd
  | inlineTableEnd
  | basicString
  | literalString
  | multilineBasicString
  | multilineLiteralString
  | escape
  | number
  | nesting
  | duplicate (key : List Char) (table : Option (List (List Char)))
  | notTable (keys : List (List Char)) (type : String)

namespace Problem

def dotted (keys : List (List Char)) : String :=
  ".".intercalate (keys.map String.ofList)

def message : Problem → String
  | key => "invalid key"
  | separator => "expected \x60.\x60, \x60=\x60"
  | value => "invalid string\nexpected \x60\"\x60, \x60\x27\x60"
  | missingValue => ""
  | lineEnd => "expected newline, \x60#\x60"
  | headerEnd => "invalid table header\nexpected \x60.\x60, \x60]\x60"
  | headerLineEnd => "invalid table header\nexpected newline, \x60#\x60"
  | arrayEnd => "invalid array\nexpected \x60]\x60"
  | inlineTableEnd => "invalid inline table\nexpected \x60\x7d\x60"
  | basicString => "invalid basic string"
  | literalString => "invalid literal string"
  | multilineBasicString => "invalid multiline basic string"
  | multilineLiteralString => "invalid multiline literal string"
  | escape => "invalid escape sequence\nexpected \x60b\x60, \x60f\x60, \x60n\x60, \x60r\x60, \x60t\x60, \x60u\x60, \x60U\x60, \x60\\\x60, \x60\"\x60"
  | number => ""
  | nesting => "recursion limit exceeded"
  | duplicate k none => "duplicate key \x60" ++ String.ofList k ++ "\x60"
  | duplicate k (some []) => "duplicate key \x60" ++ String.ofList k ++ "\x60 in document root"
  | duplicate k (some ks) =>
    "duplicate key \x60" ++ String.ofList k ++ "\x60 in table \x60" ++ dotted ks ++ "\x60"
  | notTable ks type =>
    "dotted key \x60" ++ dotted ks ++ "\x60 attempted to extend non-table type (" ++ type ++ ")"

end Problem

/-- A problem and the text that was left to read where it arose. -/
structure Failure where
  rest : List Char
  problem : Problem

/-- A refusal: the document up to the place of the problem, the document after it,
and the problem. -/
structure Error where
  before : List Char
  after : List Char
  problem : Problem

namespace Error

/-- The line of the problem, counted from 0, its text before the problem and from
there on, and how far past the text the problem lies. The end of a document whose
last character ends a line belongs to that line. -/
def place (e : Error) : Nat × List Char × List Char × Nat :=
  let (before, past) := match e.after, e.before.reverse with
    | [], '\n' :: cs => (cs.reverse, 1)
    | _, _ => (e.before, 0)
  ((before.filter (· == '\n')).length, (before.reverse.takeWhile (· != '\n')).reverse,
    e.after.takeWhile (· != '\n'), past)

/-- The message shows the line with a mark below the character in question. A column
is a count of characters, but of bytes where the character is not ASCII. -/
def message (e : Error) : String :=
  let (line, lead, tail, past) := e.place
  let size := match e.after with
    | [] => 0
    | c :: _ => c.utf8Size
  let column := (if size ≤ 1 then lead.length else Text.byteLength lead) + past
  let number := toString (line + 1)
  let gutter := "".pushn ' ' (number.length + 1) ++ "|"
  let marked := min size (Text.byteLength (lead ++ tail) - column)
  "TOML parse error at line " ++ number ++ ", column " ++ toString (column + 1) ++ "\n" ++
    gutter ++ "\n" ++
    number ++ " | " ++ String.ofList (lead ++ tail) ++ "\n" ++
    gutter ++ "".pushn ' ' (column + 1) ++ "".pushn '^' (max 1 marked) ++ "\n" ++
    e.problem.message ++ "\n"

end Error
end TidySql.Toml
