/-! Paths, kept as they are spelled.
Two spellings name one path if they have the same components. Doubled and final
slashes and inner dots count for nothing, a leading dot counts, and two dots are kept
as they are. -/
namespace TidySql

inductive Component where
  | root
  | here
  | up
  | name (n : List Char)
  deriving DecidableEq, Repr

namespace Component

/-- The part that a nonempty text between slashes is. -/
def ofPiece (piece : List Char) : Component :=
  if piece = ['.', '.'] then up else name piece

def rank : Component → Nat
  | root => 0
  | here => 1
  | up => 2
  | name _ => 3

/-- Characters compare by code point, as their encodings compare by byte. -/
def textLe : List Char → List Char → Bool
  | [], _ => true
  | _ :: _, [] => false
  | a :: as, b :: bs => decide (a < b) || (a == b && textLe as bs)

def le : Component → Component → Bool
  | name a, name b => textLe a b
  | a, b => decide (a.rank ≤ b.rank)

end Component

namespace Path

/-- The texts between the slashes of a path, the empty ones too. -/
def pieces : List Char → List (List Char)
  | [] => [[]]
  | c :: cs =>
    if c = '/' then [] :: pieces cs
    else match pieces cs with
      | [] => [[c]]
      | p :: ps => (c :: p) :: ps

def isAbsolute (path : List Char) : Bool := path.head? == some '/'

def components (path : List Char) : List Component :=
  let inner := (pieces path).filter fun p => p ≠ [] ∧ p ≠ ['.']
  let lead :=
    if isAbsolute path then [Component.root]
    else if (pieces path).head? = some ['.'] then [Component.here]
    else []
  lead ++ inner.map Component.ofPiece

def same (p q : List Char) : Bool := components p == components q

def componentsLe : List Component → List Component → Bool
  | [], _ => true
  | _ :: _, [] => false
  | a :: as, b :: bs => if a = b then componentsLe as bs else a.le b

def le (p q : List Char) : Bool := componentsLe (components p) (components q)

def join (base relative : List Char) : List Char :=
  if base = [] ∨ base.getLast? = some '/' then base ++ relative else base ++ '/' :: relative

/-- Removes slashes and dots that count for nothing from the end of a path, which is
given from its end. The first slash of an absolute path counts. -/
def trimEnding : List Char → List Char
  | '/' :: cs => if cs.isEmpty then ['/'] else trimEnding cs
  | '.' :: '/' :: cs => trimEnding ('/' :: cs)
  | cs => cs

/-- The path without its last component, if it has one besides the root. -/
def parent? (path : List Char) : Option (List Char) :=
  match trimEnding path.reverse with
  | [] => none
  | c :: cs =>
    if c = '/' then none
    else some (trimEnding ((c :: cs).dropWhile (· != '/'))).reverse

theorem pieces_ne_nil (path : List Char) : pieces path ≠ [] := by
  cases path with
  | nil => simp [pieces]
  | cons c cs =>
    rw [pieces]
    split
    · simp
    · split <;> simp

theorem length_trimEnding_le (cs : List Char) : (trimEnding cs).length ≤ cs.length := by
  fun_induction trimEnding cs with
  | case1 => simp
  | case2 cs _ ih => exact Nat.le_succ_of_le ih
  | case3 cs ih => exact Nat.le_succ_of_le ih
  | case4 => exact Nat.le_refl _

theorem length_parent?_lt {path parent : List Char} (h : parent? path = some parent) :
    parent.length < path.length := by
  unfold parent? at h
  have bound := length_trimEnding_le path.reverse
  split at h
  · cases h
  · rename_i c cs eq
    rw [eq, List.length_reverse, List.length_cons] at bound
    split at h
    · cases h
    · rename_i slash
      cases h
      have drop : ((c :: cs).dropWhile (· != '/')).length ≤ cs.length := by
        rw [List.dropWhile_cons_of_pos (by simpa using slash)]
        exact (List.dropWhile_sublist _).length_le
      have := length_trimEnding_le ((c :: cs).dropWhile (· != '/'))
      simp only [List.length_reverse]
      omega

/-- The path and all the paths above it, the nearest first. -/
def ancestors (path : List Char) : List (List Char) :=
  match _h : parent? path with
  | none => [path]
  | some parent => path :: ancestors parent
termination_by path.length
decreasing_by exact length_parent?_lt _h

/-- The text can name an entry of a directory. -/
def isName (text : List Char) : Bool :=
  decide (text ≠ [] ∧ text ≠ ['.'] ∧ text ≠ ['.', '.'] ∧ '/' ∉ text)

def name? (path : List Char) : Option (List Char) :=
  match (components path).getLast? with
  | some (.name n) => some n
  | _ => none

/-- What follows the last dot of the name. A dot that starts the name does not count. -/
def extension? (path : List Char) : Option (List Char) := do
  let n ← name? path
  match n.reverse.dropWhile (· != '.') with
  | _ :: _ :: _ => some (n.reverse.takeWhile (· != '.')).reverse
  | _ => none

end Path
end TidySql
