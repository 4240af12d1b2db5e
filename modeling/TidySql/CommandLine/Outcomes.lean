import TidySql.CommandLine
import TidySql.Run.Workers

/-! What the command can leave.
The order in which workers take the files of a run is open, and with it the effect of the
command. `CommandLine.execute` is one of its effects. -/
namespace TidySql.CommandLine

/-- The command can have this effect. -/
def Leaves (s : Surroundings) (arguments : List (List Char)) (e : Effect) : Prop :=
  ∃ runFiles : Mode → List (List Char) → RunState,
    (∀ m operands, Ends s.tree m operands (runFiles m operands)) ∧
      e = executeBy runFiles s arguments

end TidySql.CommandLine
