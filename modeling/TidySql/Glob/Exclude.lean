import TidySql.Glob.Exclude.Reading

/-! Patterns of names and paths to leave out.
A star and a question mark match slashes too. Two stars between slashes match any
number of directories, brackets hold sets of characters, and braces hold choices. A
pattern that is not well formed is left out itself. -/
namespace TidySql.Glob.Exclude

/-- Directories and then a name that is written out. -/
def isNamePattern : List Part → Bool
  | .leading :: parts =>
    !parts.isEmpty && parts.all fun p => p.isLiteral && decide (p ≠ .literal '/')
  | _ => false

/-- A star, a dot and then an extension that is written out, in any directory. -/
def isExtensionPattern (parts : List Part) : Bool :=
  match (match parts with
    | .leading :: parts => parts
    | parts => parts) with
  | .star :: .literal '.' :: e =>
    e.all fun p => p.isLiteral && decide (p ≠ .literal '/') && decide (p ≠ .literal '.')
  | _ => false

/-- All written out, but for a last part that takes the rest. -/
def isPrefixPattern (parts : List Part) : Bool :=
  match parts.getLast? with
  | some .star => 1 < parts.length && parts.dropLast.all Part.isLiteral
  | some .trailing => parts.dropLast.all Part.isLiteral
  | _ => !parts.isEmpty && parts.all Part.isLiteral

/-- All written out, but for a first part that takes what precedes. -/
def isSuffixPattern (parts : List Part) : Bool :=
  let parts := match parts with
    | .leading :: parts => parts
    | parts => parts
  let parts := match parts with
    | .star :: parts => parts
    | parts => parts
  !parts.isEmpty && parts.all Part.isLiteral

def endsInExtension (parts : List Part) : Bool :=
  let tail := parts.reverse.takeWhile fun p =>
    p.isLiteral && decide (p ≠ .literal '/') && decide (p ≠ .literal '.')
  parts.reverse[tail.length]? = some (.literal '.')

/-- The pattern is decided by the name or the extension of a path. -/
def readsName (parts : List Part) : Bool :=
  isNamePattern parts || isExtensionPattern parts ||
    (!isPrefixPattern parts && !isSuffixPattern parts && endsInExtension parts)

/-- The pattern matches all of a path. A path that ends in a dot has neither a name nor
an extension, so no pattern that is decided by them matches it. -/
def accepts (parts : List Part) (path : List Char) : Bool :=
  if parts = [.leading] then true
  else if path.getLast? = some '.' ∧ readsName parts then false
  else ((Part.sequence? parts).getD .empty).accepts (Text.encode path)

def compile (patterns : List (List Char)) : List (List Part) := patterns.filterMap parse?

def anyAccepts (patterns : List (List Part)) (path : List Char) : Bool :=
  patterns.any fun p => accepts p path

end TidySql.Glob.Exclude
