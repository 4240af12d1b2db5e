import TidySql.Mode

/-! Lines with a coloured label. -/
namespace TidySql

inductive Color where
  | yellow
  | red
  deriving DecidableEq, Repr

/-- The number of the colour in a terminal's control sequence. -/
def Color.code : Color → String
  | yellow => "33"
  | red => "31"

/-- A label, a colon and a message. On a terminal with colours the label is bold. -/
def labeled (ansi : Bool) (color : Color) (label : String) (message : String) : String :=
  if ansi then
    "\x1b[0m\x1b[1m\x1b[" ++ color.code ++ "m" ++ label ++ "\x1b[0m: " ++ message ++ "\n"
  else label ++ ": " ++ message ++ "\n"

end TidySql
