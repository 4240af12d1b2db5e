import TidySql.Glob.Exclude.Part

/-! Reading of exclude patterns.
A backslash takes the next character as it is. Brackets and braces must be closed, and
the ends of a range must be in order. -/
namespace TidySql.Glob.Exclude

/-- The part of a pattern that is read: the branches that are open, the innermost
first and its parts last to first, and how many branches there are in each open brace. -/
structure Reading where
  branches : List (List Part) := [[]]
  braces : List Nat := []
  previous : Option Char := none

namespace Reading

def push (r : Reading) (p : Part) : Reading :=
  match r.branches with
  | [] => { r with branches := [[p]] }
  | b :: bs => { r with branches := (p :: b) :: bs }

def replaceLast (r : Reading) (f : Part → Part) : Reading :=
  match r.branches with
  | (p :: b) :: bs => { r with branches := (f p :: b) :: bs }
  | _ => r

def after (r : Reading) (c : Char) : Reading := { r with previous := some c }

def atBranchStart (r : Reading) : Bool := (r.branches.head?.getD []).isEmpty

def openBrace (r : Reading) : Reading :=
  { r with branches := [] :: r.branches, braces := 1 :: r.braces }

def nextBranch (r : Reading) : Reading :=
  match r.braces with
  | n :: ns => { r with branches := [] :: r.branches, braces := (n + 1) :: ns }
  | [] => r.push (.literal ',')

def closeBrace? (r : Reading) : Option Reading :=
  match r.braces with
  | [] => none
  | n :: ns =>
    let inner := (r.branches.take n).reverse.map List.reverse
    some ({ r with branches := r.branches.drop n, braces := ns }.push (Part.ofBranches inner))

/-- Reads two stars. They stand for directories if slashes, ends or braces enclose
them, and the slash before or after them is part of them. -/
def twoStars (r : Reading) (cs : List Char) : Reading × List Char :=
  let stars := (r.push .star).push .star
  if r.atBranchStart then
    match cs with
    | [] => (r.push .leading, [])
    | c :: rest => if c = '/' then ((r.push .leading).after '/', rest) else (stars.after '*', cs)
  else if r.previous ≠ some '/' ∧
      (r.braces.isEmpty ∨ (r.previous ≠ some ',' ∧ r.previous ≠ some '\x7b')) then
    (stars.after '*', cs)
  else
    let put (p : Part) : Part → Part
      | .leading => .leading
      | .trailing => .trailing
      | _ => p
    match cs with
    | [] => (r.replaceLast (put .trailing), [])
    | c :: rest =>
      if (c = ',' ∨ c = '\x7d') ∧ !r.braces.isEmpty then
        ((r.replaceLast (put .trailing)).after '*', cs)
      else if c = '/' then ((r.replaceLast (put .between)).after '/', rest)
      else (stars.after '*', cs)

end Reading

/-- What is read of a set: its ranges, the last first. -/
structure SetReading where
  ranges : List (Char × Char) := []
  /-- A dash was read that may make a range. -/
  inRange : Bool := false

def SetReading.extend? (s : SetReading) (c : Char) : Option SetReading :=
  match s.ranges with
  | [] => none
  | (a, _) :: rs => if c < a then none else some ⟨(a, c) :: rs, false⟩

/-- Reads a set up to its closing bracket. A bracket or a dash that comes first is a
member, and so is a dash that comes last. -/
def readSet (first : Bool) (s : SetReading) : List Char → Option (List (Char × Char) × List Char)
  | [] => none
  | c :: cs =>
    if c = ']' ∧ !first then
      some ((if s.inRange then ('-', '-') :: s.ranges else s.ranges).reverse, cs)
    else if c = '-' ∧ !first ∧ !s.inRange then readSet false { s with inRange := true } cs
    else if s.inRange then
      match s.extend? c with
      | none => none
      | some s => readSet false s cs
    else readSet false { s with ranges := (c, c) :: s.ranges } cs

/-- Reads a pattern to its end. Each step takes at least one character, so the length
of the text bounds their number. -/
def read : Nat → Reading → List Char → Option Reading
  | 0, r, _ => some r
  | _ + 1, r, [] => some r
  | n + 1, r, c :: cs =>
    match c with
    | '?' => read n ((r.push .anyOne).after c) cs
    | '*' =>
      match cs with
      | '*' :: cs =>
        let (r, cs) := r.twoStars cs
        read n r cs
      | _ => read n ((r.push .star).after c) cs
    | '[' =>
      let (negated, body) := match cs with
        | '!' :: body | '^' :: body => (true, body)
        | _ => (false, cs)
      match readSet true {} body with
      | none => none
      | some (ranges, rest) => read n ((r.push (.set negated ranges)).after ']') rest
    | '\x7b' => read n (r.openBrace.after c) cs
    | '\x7d' => (r.closeBrace?).bind fun r => read n (r.after c) cs
    | ',' => read n (r.nextBranch.after c) cs
    | '\\' =>
      match cs with
      | [] => none
      | d :: cs => read n ((r.push (.literal d)).after d) cs
    | c => read n ((r.push (.literal c)).after c) cs

def parse? (pattern : List Char) : Option (List Part) := do
  let r ← read (pattern.length + 1) {} pattern
  match r.braces, r.branches with
  | [], [parts] => some parts.reverse
  | _, _ => none

end TidySql.Glob.Exclude
