import TidySql.Equivalence
import TidySql.Mode
import TidySql.Text.Quoted
import TidySql.Toml.Failure

/-! What can go wrong, and the words for it.
Formatting itself cannot fail. Errors come from the configuration, from files, and
from the comparison of a result with its source. -/
namespace TidySql

inductive ConfigError where
  | indentOutOfRange (width : Nat)
  | negativeIndent (width : Int)
  | unknownCase (text : List Char)
  | wrongType (key : List Char) (type : String)
  | unknownOption (key : List Char)
  | missingFile (path : List Char)
  deriving DecidableEq, Repr

def ConfigError.message : ConfigError → String
  | indentOutOfRange n =>
    "indent_width must be between 1 and " ++ toString Options.maxWidth ++ ", got " ++ toString n
  | negativeIndent n => "indent_width must be positive, got " ++ toString n
  | unknownCase s =>
    "keyword_case must be \"upper\" or \"lower\", got " ++ String.ofList (Text.quoted s)
  | wrongType key type => "Invalid type for " ++ String.ofList key ++ ": " ++ type
  | unknownOption key => "Unknown config option: " ++ String.ofList key
  | missingFile path => "Config file not found: " ++ String.ofList path

inductive ReadError where
  | isDirectory
  | notUtf8
  deriving DecidableEq, Repr

def ReadError.message : ReadError → String
  | isDirectory => "Is a directory (os error 21)"
  | notUtf8 => "stream did not contain valid UTF-8"

inductive Error where
  | config (e : ConfigError)
  | equivalence (e : Mismatch)
  | io (e : ReadError)
  | toml (e : Toml.Error)

def Error.message : Error → String
  | config e => "sqlshow config error: " ++ e.message
  | equivalence e => "sqlshow equivalence error: " ++ e.message
  | io e => "IO error: " ++ e.message
  | toml e => "TOML parse error: " ++ e.message

/-- A mode with a width that layout would not use as it stands is refused. -/
def Mode.validate (m : Mode) : Except ConfigError Unit :=
  if m.isValid then .ok () else .error (.indentOutOfRange m.indentWidth)

def decode (content : List UInt8) : Except ReadError (List Char) :=
  match Text.decode? content with
  | some text => .ok text
  | none => .error .notUtf8

end TidySql
