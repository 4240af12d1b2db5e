import TidySql.Diff
import TidySql.Format
import TidySql.Report
import TidySql.Selection

/-! Runs over files.
The selected files are formatted in order, each on the tree that the files before it
have left, and the tree after the last one is the result. -/
namespace TidySql

/-- What is to be done about a file. -/
structure Verdict where
  outcome : Outcome
  /-- The difference to show. -/
  diff : List Char := []
  /-- The content to write. -/
  content? : Option (List UInt8) := none
  deriving DecidableEq, Repr

/-- A file is written only if its text changes and the mode does not just ask what would
change. -/
def Verdict.of (m : Mode) (path : List Char) (source : Except ReadError (List Char)) : Verdict :=
  match source with
  | .error e => { outcome := .failed ("Read error: " ++ e.message) }
  | .ok source =>
    match formatText m source with
    | .error e => { outcome := .failed e.message }
    | .ok result =>
      if source = result then { outcome := .unchanged }
      else if m.diff then { outcome := .changed, diff := Diff.render path source result }
      else if m.check then { outcome := .changed }
      else { outcome := .changed, content? := some (Text.encode result) }

structure RunState where
  tree : Tree
  report : Report := {}
  diffs : List Char := []

namespace RunState

def read (t : Tree) (path : List Char) : Except ReadError (List Char) :=
  match t.find? path with
  | some (.file content) => decode content
  | _ => .error .isDirectory

def carryOut (s : RunState) (path : List Char) (v : Verdict) : RunState where
  tree := v.content?.elim s.tree (s.tree.write path)
  report := s.report.add ⟨path, v.outcome⟩
  diffs := s.diffs ++ v.diff

def formatFile (m : Mode) (s : RunState) (path : List Char) : RunState :=
  s.carryOut path (.of m path (read s.tree path))

end RunState

def run (t : Tree) (m : Mode) (operands : List (List Char)) : RunState :=
  (Selection.paths t m operands).foldl (RunState.formatFile m) { tree := t }

end TidySql
