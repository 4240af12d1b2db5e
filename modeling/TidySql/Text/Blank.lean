import TidySql.Text.Ranges

/-! Blank characters and trimming.
A text is a list of characters. Blank means the White_Space property of
Unicode, which holds 25 characters, so blank space beyond ASCII separates words
as a space does. -/
namespace TidySql.Text

/-- The code points with the property White_Space. -/
def blankRanges : Ranges :=
  [(0x09, 0x0D), (0x20, 0x20), (0x85, 0x85), (0xA0, 0xA0), (0x1680, 0x1680),
   (0x2000, 0x200A), (0x2028, 0x2029), (0x202F, 0x202F), (0x205F, 0x205F), (0x3000, 0x3000)]

def isBlank (c : Char) : Bool := blankRanges.contains c.toNat

/-- Every character is blank. The empty text counts. -/
def allBlank (cs : List Char) : Bool := cs.all isBlank

/-- Removes the longest ending whose members all satisfy the test. -/
def dropEndWhile (p : α → Bool) (xs : List α) : List α :=
  (xs.reverse.dropWhile p).reverse

def trimStart (cs : List Char) : List Char := cs.dropWhile isBlank

def trimEnd (cs : List Char) : List Char := dropEndWhile isBlank cs

def trim (cs : List Char) : List Char := trimEnd (trimStart cs)

def withoutBlanks (cs : List Char) : List Char := cs.filter fun c => !isBlank c

theorem dropEndWhile_append_takeWhile (p : α → Bool) (xs : List α) :
    dropEndWhile p xs ++ (xs.reverse.takeWhile p).reverse = xs := by
  rw [dropEndWhile, ← List.reverse_append, List.takeWhile_append_dropWhile, List.reverse_reverse]

end TidySql.Text
