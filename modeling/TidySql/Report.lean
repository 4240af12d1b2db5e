import TidySql.Label

/-! What a run did to each file. -/
namespace TidySql

inductive Outcome where
  /-- The file is formatted already. -/
  | unchanged
  /-- The file got new content, or would get it. -/
  | changed
  | failed (message : String)
  deriving DecidableEq, Repr

namespace Outcome

def isFailure : Outcome → Bool
  | failed _ => true
  | _ => false

def message? : Outcome → Option String
  | failed message => some message
  | _ => none

end Outcome

structure FileResult where
  path : List Char
  outcome : Outcome
  deriving DecidableEq, Repr

structure Report where
  results : List FileResult := []
  deriving DecidableEq, Repr

namespace Report

def add (r : Report) (f : FileResult) : Report := ⟨r.results ++ [f]⟩

def total (r : Report) : Nat := r.results.length

def unchanged (r : Report) : Nat := r.results.countP fun f => f.outcome = .unchanged

def changed (r : Report) : Nat := r.results.countP fun f => f.outcome = .changed

def errors (r : Report) : Nat := r.results.countP fun f => f.outcome.isFailure

def hasErrors (r : Report) : Bool := decide (0 < r.errors)

def hasChanges (r : Report) : Bool := decide (0 < r.changed)

/-- A count and its name, left out if the count is zero. -/
def part (n : Nat) (name : String) : List String :=
  if n = 0 then [] else [toString n ++ " " ++ name]

def summary (r : Report) : String :=
  ", ".intercalate ([toString r.total ++ " file(s) processed"] ++
    part r.changed "reformatted" ++ part r.unchanged "unchanged" ++ part r.errors "error(s)")

/-- A line for each file that changed or failed. -/
def verboseLines (ansi : Bool) (r : Report) : String :=
  "".intercalate (r.results.map fun f =>
    match f.outcome with
    | .unchanged => ""
    | .changed => labeled ansi .yellow "reformatted" (String.ofList f.path)
    | .failed _ => labeled ansi .red "error" (String.ofList f.path))

/-- A line for each file that failed, with the reason. -/
def errorLines (ansi : Bool) (r : Report) : String :=
  "".intercalate (r.results.map fun f =>
    match f.outcome with
    | .failed message =>
      labeled ansi .red "error" (String.ofList f.path ++ ": " ++ message)
    | _ => "")

end Report
end TidySql
