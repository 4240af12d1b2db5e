import TidySql.Layout
import TidySql.Path

/-! The settings of a run. -/
namespace TidySql

inductive ColorChoice where
  | always
  | never
  | auto
  deriving DecidableEq, Repr

def ColorChoice.name : ColorChoice → String
  | always => "Always"
  | never => "Never"
  | auto => "Auto"

structure Mode where
  indentWidth : Nat := 4
  keywordCase : KeywordCase := .upper
  /-- Report what would change, and change nothing. -/
  check : Bool := false
  /-- Show what would change, and change nothing. -/
  diff : Bool := false
  /-- Do not compare the tokens of the result with those of the source. -/
  fast : Bool := false
  /-- Patterns of names and paths that a directory walk leaves out. -/
  exclude : List (List Char) := []
  verbose : Bool := false
  quiet : Bool := false
  noProgressBar : Bool := false
  noColor : Bool := false
  forceColor : Bool := false
  /-- The number of threads to use, where 0 stands for all there are. -/
  threads : Nat := 0
  singleProcess : Bool := false
  deriving DecidableEq, Repr

namespace Mode

def options (m : Mode) : Options := ⟨m.indentWidth, m.keywordCase⟩

def isValid (m : Mode) : Bool :=
  decide (1 ≤ m.indentWidth) && decide (m.indentWidth ≤ Options.maxWidth)

/-- Whether the tokens of a result are compared with those of its source. -/
def comparesTokens (m : Mode) : Bool := !m.fast && !m.check && !m.diff

/-- A forced colour wins over one that the mode or the environment forbids. -/
def color (m : Mode) (forbidden : Bool) : ColorChoice :=
  if m.forceColor then .always
  else if m.noColor || forbidden then .never
  else .auto

def extensions : List (List Char) := ["sql", "ddl", "dml"].map String.toList

/-- The path has an extension of SQL files, in any letter case. No letter beyond
ASCII has one of these letters as its lower case. -/
def isSqlPath (path : List Char) : Bool :=
  (Path.extension? path).any fun e => extensions.contains (Text.lower e)

end Mode
end TidySql
