import TidySql.Error
import TidySql.Layout
import TidySql.Token.Scan

/-! Formatting of SQL text. -/
namespace TidySql

/-- Lays out a text. A blank one becomes empty. -/
def format (o : Options) (source : List Char) : List Char :=
  if Text.allBlank source then [] else Layout.format o ((tokenize source).map Token.toLexeme)

/-- A formatted text as the content of a file: a line feed ends it unless it is empty. -/
def withLineEnd (formatted : List Char) : List Char :=
  if formatted.isEmpty then [] else formatted ++ ['\n']

/-- The content that a file with the given text should have. Unless the mode leaves
it out, a last step compares the tokens of the result with those of the source. -/
def formatText (m : Mode) (source : List Char) : Except Error (List Char) :=
  match m.validate with
  | .error e => .error (.config e)
  | .ok () =>
    let result := withLineEnd (format m.options source)
    match if m.comparesTokens then Equivalence.mismatch? source result else none with
    | some e => .error (.equivalence e)
    | none => .ok result

end TidySql
