import TidySql.Error
import TidySql.Text.Lowercase
import TidySql.Toml.Document
import TidySql.Tree

/-! Configuration files.
A run uses at most one file: the one that it is told to use, or the first one found
above its operands, or that of the user. A file may set three options, and their
names may be in any letter case. -/
namespace TidySql.Config

def setOption (m : Mode) (key : List Char) (v : Toml.Value) : Except ConfigError Mode :=
  if key = "indent_width".toList then
    match v with
    | .integer n =>
      if 0 ≤ n then .ok { m with indentWidth := n.toNat } else .error (.negativeIndent n)
    | _ => .error (.wrongType key v.typeName)
  else if key = "keyword_case".toList then
    match v with
    | .string s =>
      match KeywordCase.ofName? (String.ofList s) with
      | some k => .ok { m with keywordCase := k }
      | none => .error (.unknownCase s)
    | _ => .error (.wrongType key v.typeName)
  else if key = "exclude".toList then
    match v with
    | .array _ items => .ok { m with exclude := items.filterMap Toml.Value.string? }
    | _ => .error (.wrongType key v.typeName)
  else .error (.unknownOption key)

def apply (m : Mode) (options : Toml.Entries) : Except ConfigError Mode := do
  let m ← options.foldlM (fun m (key, v) => setOption m key v) m
  m.validate
  return m

/-- Gives a key its value, in the place of an older one. -/
def put (options : Toml.Entries) (key : List Char) (v : Toml.Value) : Toml.Entries :=
  if (options.find? key).isSome then options.replace key v else options ++ [(key, v)]

/-- The options of a table. Of the keys that differ only in case, the last in the
order of the keys counts. -/
def lowerKeys (table : Toml.Entries) : Toml.Entries :=
  (table.mergeSort fun a b => Component.textLe a.1 b.1).foldl
    (fun options (key, v) => put options (Text.lowercase key) v) []

def ofContent (content : List UInt8) : Except Error Mode :=
  match decode content with
  | .error e => .error (.io e)
  | .ok text =>
    match Toml.parse text with
    | .error e => .error (.toml e)
    | .ok table =>
      match apply {} (lowerKeys table) with
      | .error e => .error (.config e)
      | .ok m => .ok m

/-- The directory from which the search for an operand starts. -/
def directoryOf (t : Tree) (operand : List Char) : List Char :=
  if t.isDirectory operand then operand
  else
    match Path.parent? operand with
    | none | some [] => ['.']
    | some parent => parent

/-- The directories of the operands and those above them, each once, in the spelling
that comes first. -/
def searchList (t : Tree) (operands : List (List Char)) : List (List Char) :=
  (operands.flatMap fun p => Path.ancestors (directoryOf t p)).foldl
    (fun seen p => if seen.any (Path.same p) then seen else seen ++ [p]) []

/-- The names of a configuration file, the stronger first. -/
def fileNames : List (List Char) := ["sqlshow.toml", ".sqlshow.toml"].map String.toList

/-- The first configuration file in the directories of the operands. -/
def discover (t : Tree) (operands : List (List Char)) : Option (List Char) :=
  (searchList t operands).findSome? fun directory =>
    (fileNames.map (Path.join directory)).find? t.isFile

/-- The mode from the configuration file that counts: the explicit one, else one found
from the operands, else that of the user, else none. -/
def load (t : Tree) (user : Option (List UInt8)) (operands : List (List Char))
    (explicit : Option (List Char)) : Except Error Mode :=
  let path := explicit <|> discover t operands
  match path with
  | some path =>
    match t.find? path with
    | none => .error (.config (.missingFile path))
    | some .directory => .error (.io .isDirectory)
    | some (.file content) => ofContent content
  | none =>
    match user with
    | none => .ok {}
    | some content => ofContent content

end TidySql.Config
