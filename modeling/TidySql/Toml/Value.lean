/-! The values of a TOML document.
A table keeps its entries in the order in which they were written, and remembers
how it came to be, which decides how the rest of the document may extend it. -/
namespace TidySql.Toml

/-- How a table came to be. -/
inductive Origin where
  /-- A header of its own, or the document itself. -/
  | header
  /-- A longer header that passes through it. -/
  | implied
  /-- A dotted key that passes through it. -/
  | dotted
  /-- Braces. Such a table is complete where it stands. -/
  | inline
  deriving DecidableEq, Repr

/-- A value. Floats and moments in time keep the text that wrote them. -/
inductive Value where
  | string (text : List Char)
  | integer (n : Int)
  | float (text : List Char)
  | boolean (b : Bool)
  | datetime (text : List Char)
  /-- An array grows if double-bracket headers wrote it. -/
  | array (grows : Bool) (items : List Value)
  | table (origin : Origin) (entries : List (List Char × Value))
  deriving Repr

def Value.typeName : Value → String
  | .string _ => "string"
  | .integer _ => "integer"
  | .float _ => "float"
  | .boolean _ => "boolean"
  | .datetime _ => "datetime"
  | .array _ _ => "array"
  | .table _ _ => "table"

def Value.string? : Value → Option (List Char)
  | .string text => some text
  | _ => none

def Value.boolean? : Value → Option Bool
  | .boolean b => some b
  | _ => none

/-- The entries of a table, each key once. -/
abbrev Entries := List (List Char × Value)

namespace Entries

def find? (key : List Char) (es : Entries) : Option Value := es.lookup key

/-- Puts a value in the place of the one that the key has. -/
def replace (key : List Char) (v : Value) (es : Entries) : Entries :=
  es.map fun (k, old) => if k = key then (k, v) else (k, old)

end Entries
end TidySql.Toml
