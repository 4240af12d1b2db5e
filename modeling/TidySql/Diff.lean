import TidySql.Diff.Compaction
import TidySql.Diff.Shortest
import TidySql.Text.Line

/-! Differences of two texts, as text.
Every line has a sign before it that says which text it belongs to. -/
namespace TidySql.Diff

/-- The lines of a script with their signs, where the pieces from `deleted` and
`inserted` wait for the next kept one. Between two kept pieces all deleted lines come
before the inserted ones. -/
def signedFrom (deleted inserted : List (List Char)) :
    Script (List Char) → List (Char × List Char)
  | [] => deleted.map ('-', ·) ++ inserted.map ('+', ·)
  | .keep xs :: s =>
    deleted.map ('-', ·) ++ inserted.map ('+', ·) ++ xs.map (' ', ·) ++ signedFrom [] [] s
  | .delete xs :: s => signedFrom (deleted ++ xs) inserted s
  | .insert xs :: s => signedFrom deleted (inserted ++ xs) s

def ended (line : List Char) : List Char := if Text.isEnded line then line else line ++ ['\n']

def signedLines (old new : List Char) : List (Char × List Char) :=
  signedFrom [] [] (compact (shortest (Text.lines old) (Text.lines new)))

def render (path old new : List Char) : List Char :=
  "--- ".toList ++ path ++ "\n+++ ".toList ++ path ++ ['\n'] ++
    (signedLines old new).flatMap fun (sign, line) => sign :: ended line

end TidySql.Diff
