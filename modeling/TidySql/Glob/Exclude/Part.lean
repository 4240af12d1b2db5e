import TidySql.Glob.BytePattern

/-! The parts of an exclude pattern, and the strings that they match. -/
namespace TidySql.Glob

/-- A part of a pattern. A choice is held in the form in which it is matched, and one
without a branch that says something is empty. -/
inductive Part where
  | literal (c : Char)
  | anyOne
  | star
  /-- Any directories at the front. -/
  | leading
  /-- Anything below a directory. -/
  | trailing
  /-- Any directories in between. -/
  | between
  | set (negated : Bool) (ranges : List (Char × Char))
  | choice (p : Option BytePattern)
  deriving DecidableEq, Repr

namespace Part

def slash : BytePattern := BytePattern.char '/'

/-- The ranges of bytes that a range of characters stands for. Sets are sets of bytes,
so a character of several bytes puts each of them in, and the range runs from the last
byte of one end to the first of the other. -/
def byteRanges (r : Char × Char) : List (UInt8 × UInt8) :=
  let single (bs : List UInt8) := bs.map fun b => (b, b)
  let low := Text.encode [r.1]
  let high := Text.encode [r.2]
  if r.1 = r.2 then single low
  else
    match low.getLast?, high.head? with
    | some a, some b => single low.dropLast ++ [(a, b)] ++ single high.tail
    | _, _ => []

/-- The strings that a part matches. Nothing is said by an empty choice. -/
def bytes? : Part → Option BytePattern
  | literal c => some (.char c)
  | anyOne => some .any
  | star => some .many
  | leading => some (.either (.either .empty slash) (.append .many slash))
  | trailing => some (.append slash .many)
  | between => some (.either slash (.append slash (.append .many slash)))
  | set negated ranges => some (.one negated (ranges.flatMap byteRanges))
  | choice p => p

def sequence? (parts : List Part) : Option BytePattern :=
  (parts.filterMap bytes?).foldr
    (fun a rest =>
      match rest with
      | none => some a
      | some b => some (.append a b)) none

/-- A choice of branches, without those that say nothing. -/
def ofBranches (branches : List (List Part)) : Part :=
  .choice ((branches.filterMap sequence?).foldr
    (fun a rest =>
      match rest with
      | none => some a
      | some b => some (.either a b)) none)

def isLiteral : Part → Bool
  | literal _ => true
  | _ => false

end Part

end TidySql.Glob
