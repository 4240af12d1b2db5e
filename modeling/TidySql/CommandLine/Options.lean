import TidySql.CommandLine.Arguments

/-! Arguments by their parts: options with their values, and operands. -/
namespace TidySql.Arguments

/-- What a list of options adds to the arguments. It has to be whole, and none of the options
may be wrong or ask for anything but a run. -/
def options? (a : Arguments) : List (List Char) → Option Arguments
  | [] => some a
  | text :: rest =>
    if isOption text = false ∨ text = ['-', '-'] then none
    else
      match a.argument? text with
      | some (.done a) => a.options? rest
      | some (.awaits a s) =>
        match rest with
        | [] => none
        | value :: rest =>
          if isOption value then none
          else
            match a.set? s value with
            | none => none
            | some a => a.options? rest
      | _ => none

/-- No argument of the list is an operand or asks for anything but a run, up to one that is
wrong. The last option may lack its value. -/
def onlyOptions (a : Arguments) : List (List Char) → Bool
  | [] => true
  | text :: rest =>
    if isOption text = false ∨ text = ['-', '-'] then false
    else
      match a.argument? text with
      | none => true
      | some (.done a) => a.onlyOptions rest
      | some (.awaits a s) =>
        match rest with
        | [] => true
        | value :: rest =>
          if isOption value then true
          else
            match a.set? s value with
            | none => true
            | some a => a.onlyOptions rest
      | _ => false

/-- The operands that arguments spell. After two dashes an operand may look like an option. -/
def operands? : List (List Char) → Option (List (List Char))
  | [] => some []
  | text :: rest =>
    if text = ['-', '-'] then if rest.all (!·.isEmpty) then some rest else none
    else if isOption text || text.isEmpty then none
    else (operands? rest).map (text :: ·)

end TidySql.Arguments
