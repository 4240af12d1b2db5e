import TidySql.Mode
import TidySql.Toml.Value

/-! Modes written as tables.
A table may set every part of a mode under the part's own name. Parts that are not set
have their defaults, keys that name no part are passed over, and a value of the wrong
type spoils the table. -/
namespace TidySql.Mode

/-- The value under a key, or the default if the key is missing. -/
def part {α : Type} (es : Toml.Entries) (key : String) (default : α)
    (read : Toml.Value → Option α) : Option α :=
  match es.find? key.toList with
  | none => some default
  | some v => read v

def natural? : Toml.Value → Option Nat
  | .integer n => if 0 ≤ n then some n.toNat else none
  | _ => none

def isEmptyValue : Toml.Value → Bool
  | .array _ items => items.isEmpty
  | .table _ es => es.isEmpty
  | _ => false

/-- A letter case is its name, or a table that holds nothing but an empty value under
its name. -/
def case? : Toml.Value → Option KeywordCase
  | .string s => KeywordCase.ofName? (String.ofList s)
  | .table _ [(key, v)] => if isEmptyValue v then KeywordCase.ofName? (String.ofList key) else none
  | _ => none

def strings? : Toml.Value → Option (List (List Char))
  | .array _ items => items.mapM Toml.Value.string?
  | _ => none

def ofTable? (es : Toml.Entries) : Option Mode := do
  let switch (key : String) := part es key false Toml.Value.boolean?
  return {
    indentWidth := ← part es "indent_width" 4 natural?
    keywordCase := ← part es "keyword_case" .upper case?
    check := ← switch "check"
    diff := ← switch "diff"
    fast := ← switch "fast"
    exclude := ← part es "exclude" [] strings?
    verbose := ← switch "verbose"
    quiet := ← switch "quiet"
    noProgressBar := ← switch "no_progressbar"
    noColor := ← switch "no_color"
    forceColor := ← switch "force_color"
    threads := ← part es "threads" 0 natural?
    singleProcess := ← switch "single_process" }

end TidySql.Mode
