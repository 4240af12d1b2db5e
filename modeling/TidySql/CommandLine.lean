import TidySql.CommandLine.Arguments
import TidySql.CommandLine.Help
import TidySql.Config
import TidySql.Run

/-! The command, as a function from what it finds to what it leaves. -/
namespace TidySql

structure Surroundings where
  tree : Tree
  userConfig : Option (List UInt8) := none
  stdin : List UInt8 := []
  noColor : Bool := false
  terminal : Option String := none

structure Effect where
  code : Nat
  stdout : List Char := []
  stderr : List Char := []
  tree : Tree

namespace CommandLine

def version : String := "sqlshow 0.1.0\n"

/-- Messages have colours. Where that is left open, the terminal decides. -/
def usesColor (s : Surroundings) (m : Mode) : Bool :=
  match m.color s.noColor with
  | .always => true
  | .never => false
  | .auto => s.terminal.any (· != "dumb") && !s.noColor

def runStdin (s : Surroundings) (m : Mode) : Effect :=
  match decode s.stdin with
  | .error e =>
    { code := 2, stderr := ("Error: reading stdin: " ++ e.message ++ "\n").toList, tree := s.tree }
  | .ok source =>
    match formatText m source with
    | .error e => { code := 2, stderr := ("Error: " ++ e.message ++ "\n").toList, tree := s.tree }
    | .ok result => { code := 0, stdout := result, tree := s.tree }

/-- What is left of a run over files. -/
def afterRun (s : Surroundings) (m : Mode) (done : RunState) : Effect :=
  let ansi := usesColor s m
  let verbose := if m.verbose then done.report.verboseLines ansi else ""
  let summary := if m.quiet then "" else verbose ++ done.report.summary ++ "\n"
  { code := if done.report.hasErrors then 2 else if m.check && done.report.hasChanges then 1 else 0
    stderr := done.diffs ++ (summary ++ done.report.errorLines ansi).toList
    tree := done.tree }

/-- The mode of a run: what the arguments set, over what is configured. -/
def resolve (s : Surroundings) (a : Arguments) : Except Error Mode :=
  (Config.load s.tree s.userConfig a.operands a.config).map a.toMode

def request (runFiles : Mode → List (List Char) → RunState) (s : Surroundings) (a : Arguments) :
    Effect :=
  match resolve s a with
  | .error e =>
    { code := 2, stderr := ("Configuration error: " ++ e.message ++ "\n").toList, tree := s.tree }
  | .ok m =>
    if a.operands = [['-']] then runStdin s m else afterRun s m (runFiles m a.operands)

/-- The command, with a way to run over files. -/
def executeBy (runFiles : Mode → List (List Char) → RunState) (s : Surroundings)
    (arguments : List (List Char)) : Effect :=
  match ({} : Arguments).read? arguments with
  | none => { code := 2, stderr := "usage error".toList, tree := s.tree }
  | some .help => { code := 0, stdout := Help.text.toList, tree := s.tree }
  | some .version => { code := 0, stdout := version.toList, tree := s.tree }
  | some (.run a) => request runFiles s a

def execute (s : Surroundings) (arguments : List (List Char)) : Effect :=
  executeBy (run s.tree) s arguments

end CommandLine
end TidySql
