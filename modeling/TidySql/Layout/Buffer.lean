import TidySql.Text.Blank

/-! The text that layout has written so far.
It grows at the end and loses only trailing spaces there, so it is held newest
character first. -/
namespace TidySql

structure Buffer where
  newestFirst : List Char
  deriving DecidableEq, Repr

namespace Buffer

def empty : Buffer := ⟨[]⟩

def toList (b : Buffer) : List Char := b.newestFirst.reverse

def append (b : Buffer) (cs : List Char) : Buffer := ⟨cs.reverse ++ b.newestFirst⟩

/-- Space and tab, the blanks that may end a line while it is written. -/
def isPadding (c : Char) : Bool := c == ' ' || c == '\t'

def trimPadding (b : Buffer) : Buffer := ⟨b.newestFirst.dropWhile isPadding⟩

/-- Nothing is written, or the last line is still empty. -/
def endsLine (b : Buffer) : Bool :=
  match b.newestFirst with
  | [] => true
  | c :: _ => c == '\n'

/-- Ends the last line, if there is one, and removes its padding. -/
def breakLine (b : Buffer) : Buffer :=
  if b.trimPadding.endsLine then b.trimPadding else b.trimPadding.append ['\n']

@[simp] theorem toList_empty : empty.toList = [] := rfl

@[simp] theorem toList_append (b : Buffer) (cs : List Char) :
    (b.append cs).toList = b.toList ++ cs := by simp [toList, append]

@[simp] theorem toList_trimPadding (b : Buffer) :
    b.trimPadding.toList = Text.dropEndWhile isPadding b.toList := by
  simp [toList, trimPadding, Text.dropEndWhile]

theorem endsLine_iff (b : Buffer) :
    b.endsLine = true ↔ b.toList = [] ∨ b.toList.getLast? = some '\n' := by
  obtain ⟨cs⟩ := b
  cases cs <;> simp [endsLine, toList]

theorem endsLine_breakLine (b : Buffer) : b.breakLine.endsLine = true := by
  unfold breakLine
  split
  · assumption
  · rfl

end Buffer
end TidySql
