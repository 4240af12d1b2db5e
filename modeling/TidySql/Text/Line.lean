/-! Lines of a text.
A line feed, a carriage return, or both in that order end a line, and the end is part
of it. -/
namespace TidySql.Text

/-- The first line and what follows it. -/
def cutLine : List Char → List Char × List Char
  | [] => ([], [])
  | c :: cs =>
    if c = '\n' then (['\n'], cs)
    else if c = '\r' then
      if cs.head? = some '\n' then (['\r', '\n'], cs.tail) else (['\r'], cs)
    else
      let s := cutLine cs
      (c :: s.1, s.2)

theorem cutLine_append (cs : List Char) : (cutLine cs).1 ++ (cutLine cs).2 = cs := by
  fun_induction cutLine cs with
  | case1 => rfl
  | case2 => rfl
  | case3 cs head =>
    obtain ⟨rest, rfl⟩ := List.head?_eq_some_iff.mp head
    rfl
  | case4 => rfl
  | case5 c cs _ _ s ih => exact congrArg (c :: ·) ih

theorem cutLine_shorter (c : Char) (cs : List Char) :
    (cutLine (c :: cs)).2.length < (c :: cs).length := by
  have taken : (cutLine (c :: cs)).1 ≠ [] := by
    unfold cutLine
    split
    · simp
    · split
      · split <;> simp
      · simp
  have h := congrArg List.length (cutLine_append (c :: cs))
  have := List.length_pos_iff.mpr taken
  simp only [List.length_append] at h
  omega

/-- The lines of a text. The last one may have no end. -/
def lines : List Char → List (List Char)
  | [] => []
  | c :: cs => (cutLine (c :: cs)).1 :: lines (cutLine (c :: cs)).2
termination_by cs => cs.length
decreasing_by exact cutLine_shorter c cs

def isEnded (line : List Char) : Bool :=
  line.getLast?.any fun c => c == '\n' || c == '\r'

end TidySql.Text
