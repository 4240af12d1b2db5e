import TidySql.Glob.Exclude
import TidySql.Glob.Operand
import TidySql.Mode

/-! The files that a run works on.
A file operand counts if it is an SQL file. A directory operand counts for the SQL
files below it, without hidden names and without those that the mode excludes. -/
namespace TidySql.Selection

def relativePath : List Name → List Char
  | [] => []
  | [n] => n
  | n :: ns => n ++ '/' :: relativePath ns

/-- A walk does not go to a name that is hidden or excluded, by itself or as the last
one of a path below the operand. -/
def skips (excluded : List (List Glob.Part)) (names : List Name) : Bool :=
  let name := names.getLast?.getD []
  name.head? = some '.' || Glob.Exclude.anyAccepts excluded name ||
    Glob.Exclude.anyAccepts excluded (relativePath names)

/-- The SQL files below a directory, which is given by its path, its location and the
names that lead to it from the operand. No location is longer than the depth of the
tree, which bounds the walk. -/
def walk (t : Tree) (excluded : List (List Glob.Part)) :
    Nat → List Char → Location → List Name → List (List Char)
  | 0, _, _, _ => []
  | n + 1, path, l, names =>
    (t.children l).flatMap fun (name, entry) =>
      if skips excluded (names ++ [name]) then []
      else
        let below := Path.join path name
        match entry with
        | .directory => walk t excluded n below (l ++ [name]) (names ++ [name])
        | .file _ => if Mode.isSqlPath below then [below] else []

def ofPath (t : Tree) (excluded : List (List Glob.Part)) (path : List Char) : List (List Char) :=
  match t.locate? path with
  | none => []
  | some l =>
    match t.get? l with
    | some (.file _) => if Mode.isSqlPath path then [path] else []
    | some .directory => walk t excluded t.depth path l []
    | none => []

/-- Keeps the first of neighbours that are spellings of one path. -/
def dropRepeats : List (List Char) → List (List Char)
  | [] => []
  | p :: ps =>
    match dropRepeats ps with
    | [] => [p]
    | q :: qs => if Path.same p q then p :: qs else p :: q :: qs

/-- The files that operands stand for, in the order of their paths. Each path is there
once, in the spelling that comes first. -/
def paths (t : Tree) (m : Mode) (operands : List (List Char)) : List (List Char) :=
  let excluded := Glob.Exclude.compile m.exclude
  let found := (operands.flatMap (Glob.expandOperand t)).flatMap (ofPath t excluded)
  dropRepeats (found.mergeSort Path.le)

end TidySql.Selection
