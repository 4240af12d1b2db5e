import TidySql.Glob.Wildcard
import TidySql.Tree

/-! The paths that an operand stands for.
An operand that leads somewhere stands for itself. One that leads nowhere and has
marks of a pattern stands for the paths that match it. -/
namespace TidySql.Glob

/-- One name of a path pattern. A deep one may stand any number of directories down. -/
structure Step where
  deep : Bool
  pattern : List Wildcard
  deriving DecidableEq, Repr

structure PathPattern where
  isAbsolute : Bool
  steps : List Step
  /-- Two stars come last, which match the directories below. -/
  endsDeep : Bool
  /-- A slash comes last, which only a directory matches. -/
  onlyDirectories : Bool
  deriving DecidableEq, Repr

namespace PathPattern

/-- The steps of a pattern from its names, and whether two stars come last. Two stars
in a row count once. -/
def steps? (deep : Bool) : List (List Char) → Option (List Step × Bool)
  | [] => some ([], deep)
  | n :: ns =>
    if n = ['*', '*'] then steps? true ns
    else do
      let pattern ← Wildcard.parse? (n.length + 1) n
      let (steps, endsDeep) ← steps? false ns
      return (⟨deep, pattern⟩ :: steps, endsDeep)

/-- Reads a pattern. It has to be well formed as a whole and name by name. -/
def parse? (text : List Char) : Option PathPattern :=
  if !Wildcard.isWellFormed (text.length + 1) true text then none
  else do
    let isAbsolute := Path.isAbsolute text
    let names := Path.pieces (if isAbsolute then text.tail else text)
    let names := if names.getLast? = some [] then names.dropLast else names
    if !names.all (fun n => Wildcard.isWellFormed (n.length + 1) true n) then none
    else do
      let (steps, endsDeep) ← steps? false names
      return ⟨isAbsolute, steps, endsDeep, text.getLast? = some '/'⟩

end PathPattern

/-- The path of an entry of a directory. Entries of the working directory are named
without a dot before them. -/
def pathBelow (path : List Char) (name : Name) : List Char :=
  if path = ['.'] then name else Path.join path name

def namesIn (t : Tree) (path : List Char) : List Name :=
  match t.locate? path with
  | none => []
  | some l => ((t.children l).map Prod.fst).mergeSort Component.textLe

/-- The paths below a directory with their names, each before what is below it. -/
def descendants (t : Tree) : Nat → List Char → List (List Char × Name)
  | 0, _ => []
  | n + 1, path =>
    (namesIn t path).flatMap fun name =>
      (pathBelow path name, name) :: descendants t n (pathBelow path name)

/-- The paths that match the rest of a pattern, from a path that matches its front. A
name without marks is only looked up, so it may be one of the two names of dots. A
pattern with marks matches those names only if it starts with a dot. -/
def PathPattern.expand (t : Tree) (p : PathPattern) : List Step → List Char → List (List Char)
  | [], path =>
    if p.endsDeep then
      ((descendants t t.depth path).map Prod.fst).filter t.isDirectory
    else if p.onlyDirectories && !t.isDirectory path then []
    else [path]
  | s :: ss, path =>
    if s.deep then
      (descendants t t.depth path).flatMap fun (below, name) =>
        if Wildcard.accepts s.pattern name then p.expand t ss below else []
    else
      match Wildcard.literal? s.pattern with
      | some name =>
        let isDots := name = ['.'] ∨ name = ['.', '.']
        let below := if path = ['.'] then name else Path.join path name
        if if isDots then t.isDirectory path else t.contains below then p.expand t ss below else []
      | none =>
        let dots := if s.pattern.head? = some (.literal '.') then [['.'], ['.', '.']] else []
        ((namesIn t path).filter (Wildcard.accepts s.pattern)).flatMap
            (fun name => p.expand t ss (pathBelow path name)) ++
          (dots.filter fun name => t.isDirectory path && Wildcard.accepts s.pattern name).flatMap
            fun name => p.expand t ss (Path.join path name)

def expandOperand (t : Tree) (operand : List Char) : List (List Char) :=
  if t.contains operand || !operand.any Wildcard.isMark then [operand]
  else
    match PathPattern.parse? operand with
    | none => [operand]
    | some p => p.expand t p.steps (if p.isAbsolute then ['/'] else ['.'])

end TidySql.Glob
