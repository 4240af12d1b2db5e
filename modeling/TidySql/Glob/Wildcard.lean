/-! Wildcards in operands.
An operand that names nothing may be a pattern of paths, which is matched one name at
a time. A star matches any text of a name, a question mark one character, brackets a
set, and two stars as a whole name match any number of directories. -/
namespace TidySql.Glob

inductive Wildcard where
  | literal (c : Char)
  | anyOne
  | star
  /-- A character inside the ranges, or outside of them if negated. -/
  | set (negated : Bool) (ranges : List (Char × Char))
  deriving DecidableEq, Repr

namespace Wildcard

/-- The characters that make an operand a pattern. -/
def isMark (c : Char) : Bool := ['*', '?', '['].contains c

/-- The ranges of a set. A dash between two characters makes a range. -/
def ranges : List Char → List (Char × Char)
  | a :: b :: c :: cs => if b = '-' then (a, c) :: ranges cs else (a, a) :: ranges (b :: c :: cs)
  | a :: cs => (a, a) :: ranges cs
  | [] => []

/-- The set whose opening bracket precedes the text, and the text after it. Its first
member may be a closing bracket. -/
def set? (cs : List Char) : Option (Wildcard × List Char) :=
  let close (negated : Bool) (body : List Char) : Option (Wildcard × List Char) :=
    match body with
    | [] => none
    | c :: rest =>
      match rest.dropWhile (· != ']') with
      | [] => none
      | _ :: after => some (.set negated (ranges (c :: rest.takeWhile (· != ']'))), after)
  match cs with
  | '!' :: body => close true body
  | body => close false body

/-- What the stars at the front of a pattern mean. Two stars stand only for a whole
name, and more than two for nothing. -/
inductive Stars where
  | one
  | two
  | tooMany
  deriving DecidableEq

def Stars.ofCount (n : Nat) : Stars :=
  if n = 1 then one else if n = 2 then two else tooMany

/-- The pattern is well formed, where `atStart` says that a name may begin here. Each
step takes at least one character, so the length of the text bounds their number. -/
def isWellFormed : Nat → Bool → List Char → Bool
  | 0, _, _ => true
  | _ + 1, _, [] => true
  | n + 1, atStart, c :: cs =>
    if c = '*' then
      let run := cs.takeWhile (· == '*')
      let rest := cs.drop run.length
      match Stars.ofCount (run.length + 1) with
      | .one => isWellFormed n false rest
      | .two =>
        atStart && (match rest with
          | [] => true
          | d :: rest => d == '/' && isWellFormed n true rest)
      | .tooMany => false
    else if c = '[' then
      match set? cs with
      | none => false
      | some (_, rest) => isWellFormed n false rest
    else isWellFormed n (c == '/') cs

def parse? : Nat → List Char → Option (List Wildcard)
  | 0, _ => some []
  | _ + 1, [] => some []
  | n + 1, c :: cs =>
    if c = '*' then (parse? n cs).map (.star :: ·)
    else if c = '?' then (parse? n cs).map (.anyOne :: ·)
    else if c = '[' then do
      let (s, rest) ← set? cs
      return s :: (← parse? n rest)
    else (parse? n cs).map (.literal c :: ·)

def accepts : List Wildcard → List Char → Bool
  | [], name => name.isEmpty
  | .literal c :: ps, d :: name => c == d && accepts ps name
  | .anyOne :: ps, _ :: name => accepts ps name
  | .set negated rs :: ps, d :: name =>
    (rs.any fun (a, b) => decide (a ≤ d) && decide (d ≤ b)) != negated && accepts ps name
  | .star :: ps, [] => accepts ps []
  | .star :: ps, d :: name => accepts ps (d :: name) || accepts (.star :: ps) name
  | _ :: _, [] => false

/-- The name that a pattern writes out, if it has no marks. -/
def literal? (ps : List Wildcard) : Option (List Char) :=
  ps.mapM fun
    | .literal c => some c
    | _ => none

end Wildcard
end TidySql.Glob
