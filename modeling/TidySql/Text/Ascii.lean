/-! Letter case within ASCII.
Keywords are ASCII, so both maps leave every other character as it is. -/
namespace TidySql.Text

def upper (cs : List Char) : List Char := cs.map Char.toUpper

def lower (cs : List Char) : List Char := cs.map Char.toLower

/-- The two texts differ at most in the case of ASCII letters. -/
def equalIgnoringCase (a b : List Char) : Bool := lower a == lower b

theorem length_upper (cs : List Char) : (upper cs).length = cs.length := List.length_map _

theorem length_lower (cs : List Char) : (lower cs).length = cs.length := List.length_map _

theorem equalIgnoringCase_iff (a b : List Char) :
    equalIgnoringCase a b = true ↔ lower a = lower b := beq_iff_eq

end TidySql.Text
