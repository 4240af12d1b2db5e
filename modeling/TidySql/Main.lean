import TidySql.CommandLine

/-! The program.
It takes from the file system what a run can see, runs the command on it, and writes
back the files that have changed. -/
namespace TidySql.Main

def readBytes (path : String) : IO (List UInt8) := do
  return (← IO.FS.readBinFile path).data.toList

def pathOf (l : Location) : String := "/" ++ String.ofList (Selection.relativePath l)

/-- The location that a path spells, from the working directory. -/
def locationOf (cwd : Location) (path : List Char) : Location :=
  (Path.pieces path).foldl
    (fun l piece =>
      if piece = [] ∨ piece = ['.'] then l
      else if piece = ['.', '.'] then l.dropLast
      else l ++ [piece])
    (if Path.isAbsolute path then [] else cwd)

/-- The part of a pattern of paths before the first name with a mark. -/
def literalPart (operand : List Char) : List Char :=
  let lead := (Path.pieces operand).takeWhile fun n => !n.any Glob.Wildcard.isMark
  if lead = [] then ['.'] else Selection.relativePath lead ++ ['/']

/-- Puts a file in the tree. Only the content of SQL files is taken. -/
def addFile (t : Tree) (l : Location) : IO Tree := do
  let name := l.getLast?.getD []
  if Mode.isSqlPath name then return t.insert l (.file (← readBytes (pathOf l)))
  else return t.insert l (.file [])

/-- Puts in the tree what is at a location and below it, if there is anything. -/
partial def addBelow (t : Tree) (l : Location) : IO Tree := do
  let path := (← IO.currentDir) / pathOf l
  if ← path.isDir then
    let entries ← path.readDir
    entries.foldlM (fun t e => addBelow t (l ++ [e.fileName.toList])) (t.insert l .directory)
  else if ← path.pathExists then addFile t l
  else return t

/-- Takes the content of a file, whatever its name, if the file is there. -/
def addConfig (cwd : Location) (t : Tree) (path : List Char) : IO Tree := do
  let l := locationOf cwd path
  let file := (← IO.currentDir) / pathOf l
  if ← file.isDir then return t.insert l .directory
  else if ← file.pathExists then
    let content ← readBytes (pathOf l)
    return (t.insert l (.file content)).write (pathOf l).toList content
  else return t

/-- The part of the file system that a request can see. -/
def snapshot (cwd : Location) (a : Arguments) : IO Tree := do
  let here : Tree := (Tree.empty cwd).insert cwd .directory
  let bases := a.operands.map fun o =>
    if o.any Glob.Wildcard.isMark then [o, literalPart o] else [o]
  let t ← bases.flatten.foldlM (fun t o => addBelow t (locationOf cwd o)) here
  let configs := (Config.searchList t a.operands).flatMap fun d =>
    Config.fileNames.map (Path.join d)
  (configs ++ a.config.toList).foldlM (addConfig cwd) t

def userConfig : IO (Option (List UInt8)) := do
  let base ← match ← IO.getEnv "XDG_CONFIG_HOME", ← IO.getEnv "HOME" with
    | some directory, home =>
      if Path.isAbsolute directory.toList then pure (some directory)
      else pure (home.map (· ++ "/.config"))
    | none, home => pure (home.map (· ++ "/.config"))
  match base with
  | none => return none
  | some directory =>
    let file := (← IO.currentDir) / directory / "sqlshow" / "sqlshow.toml"
    if (← file.pathExists) && !(← file.isDir) then return some (← readBytes file.toString)
    else return none

def writeBack (before after : Tree) : IO Unit :=
  after.entries.forM fun (l, e) => do
    match e with
    | .directory => pure ()
    | .file content =>
      if before.get? l ≠ some (.file content) then
        IO.FS.writeBinFile (pathOf l) ⟨content.toArray⟩

end TidySql.Main

open TidySql TidySql.Main in
def main (arguments : List String) : IO UInt32 := do
  let texts := arguments.map String.toList
  let cwd := locationOf [] (← IO.currentDir).toString.toList
  let a := match ({} : Arguments).read? texts with
    | some (.run a) => a
    | _ => {}
  let tree ← snapshot cwd a
  let stdin ←
    if a.operands = [['-']] then pure (← (← IO.getStdin).readBinToEnd).data.toList
    else pure []
  let effect := CommandLine.execute
    { tree, userConfig := ← userConfig, stdin
      noColor := (← IO.getEnv "NO_COLOR").isSome
      terminal := ← IO.getEnv "TERM" } texts
  writeBack tree effect.tree
  IO.print (String.ofList effect.stdout)
  IO.eprint (String.ofList effect.stderr)
  return effect.code.toUInt32
