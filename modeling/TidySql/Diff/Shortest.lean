import TidySql.Diff.Script

/-! Shortest edit scripts.
Two searches run at once, one from the start of both texts and one from their end, and
where they meet the texts are cut in two. In a search, diagonal `k` holds the points
whose position in the first text is `k` more than that in the second. After `d` edits
a point can lie on the diagonals from `d` down to `-d` in steps of two. -/
namespace TidySql.Diff

variable {α : Type} [DecidableEq α]

/-- How far a search gets on a diagonal. Both numbers are positions in the first text:
where the last edit led, and where the equal lines after it end. -/
structure Reach where
  diagonal : Int
  start : Nat
  stop : Nat

/-- The end of the run of equal lines from a point on, as a position in the first text. -/
def runEnd (a b : Array α) (x y : Nat) : Nat :=
  if x < a.size ∧ a[x]? = b[y]? then runEnd a b (x + 1) (y + 1) else x
termination_by a.size - x

/-- The points of a search after `d` edits, from those after one edit less. A point
comes from the neighbour that got further, with a line of the second text inserted or
one of the first text deleted. -/
def frontier (a b : Array α) (d : Nat) (previous : Array Reach) : Array Reach :=
  let reached (j : Nat) : Nat := (previous[j]?.map Reach.stop).getD 0
  (Array.range (d + 1)).map fun (j : Nat) =>
    let k := (d : Int) - 2 * (j : Int)
    let start :=
      if j = d ∨ (j ≠ 0 ∧ reached j < reached (j - 1)) then reached (j - 1) else reached j + 1
    ⟨k, start, runEnd a b start (start - k).toNat⟩

def reachedOn (d : Nat) (points : Array Reach) (k : Int) : Option Nat :=
  if k.natAbs ≤ d then points[((d - k) / 2).toNat]?.map Reach.stop else none

/-- The two searches meet on the diagonal of a point: together they cover the first
text. The diagonals of the two count from opposite ends. -/
def meets (a b : Array α) (d : Nat) (other : Array Reach) (r : Reach) : Bool :=
  match reachedOn d other ((a.size - b.size : Int) - r.diagonal) with
  | some x => decide (a.size ≤ r.stop + x)
  | none => false

/-- The point where the searches meet, after `d` edits or more. The two need an odd
number of edits together if the lengths of the texts have different parity, and then
the first search is the one that finds the other. -/
def meetingFrom (a b : Array α) : Nat → Nat → Array Reach → Array Reach → Option (Nat × Nat)
  | 0, _, _, _ => none
  | n + 1, d, forward, backward =>
    let odd := (a.size + b.size) % 2 = 1
    let forward := frontier a b d forward
    match if odd then forward.find? (meets a b (d - 1) backward) else none with
    | some r => some (r.start, (r.start - r.diagonal).toNat)
    | none =>
      let backward := frontier a.reverse b.reverse d backward
      match if odd then none else backward.find? (meets a b d forward) with
      | some r => some (a.size - r.stop, b.size - (r.stop - r.diagonal).toNat)
      | none => meetingFrom a b n (d + 1) forward backward

/-- The point where the searches meet. Each of them needs about half of the edits. -/
def meeting? (a b : Array α) : Option (Nat × Nat) :=
  meetingFrom a b ((a.size + b.size + 1) / 2 + 1) 0 #[] #[]

def replacement (a b : List α) : Script α := .delete a ++ .insert b

omit [DecidableEq α] in
theorem old_replacement (a b : List α) : (replacement a b).old = a := by
  cases a <;> cases b <;>
    simp [replacement, Script.delete, Script.insert, Script.old, Piece.old]

omit [DecidableEq α] in
theorem new_replacement (a b : List α) : (replacement a b).new = b := by
  cases a <;> cases b <;>
    simp [replacement, Script.delete, Script.insert, Script.new, Piece.new]

/-- A shortest script. Each cut leaves less text on both sides, so the number of lines
bounds the depth. -/
def shortestFrom : Nat → List α → List α → Script α
  | 0, a, b => replacement a b
  | n + 1, a, b =>
    let start := commonStart a b
    let a := a.drop start.length
    let b := b.drop start.length
    let stop := commonEnd a b
    let a := a.take (a.length - stop.length)
    let b := b.take (b.length - stop.length)
    let middle :=
      if a.isEmpty ∨ b.isEmpty then replacement a b
      else
        match meeting? a.toArray b.toArray with
        | none => replacement a b
        | some (i, j) =>
          shortestFrom n (a.take i) (b.take j) ++ shortestFrom n (a.drop i) (b.drop j)
    .keep start ++ middle ++ .keep stop

def shortest (a b : List α) : Script α := shortestFrom (a.length + b.length + 1) a b

theorem old_shortestFrom (n : Nat) (a b : List α) : (shortestFrom n a b).old = a := by
  induction n generalizing a b with
  | zero => exact old_replacement a b
  | succ n ih =>
    rw [shortestFrom]
    simp only [Script.old_append, Script.old_keep]
    have outer := commonStart_append_drop a b
    generalize commonStart a b = start at outer ⊢
    have inner := take_append_commonEnd (a.drop start.length) (b.drop start.length)
    rw [List.append_assoc]
    refine Eq.trans (congrArg (start ++ ·) (Eq.trans (congrArg (· ++ _) ?_) inner)) outer
    split
    · exact old_replacement _ _
    · split
      · exact old_replacement _ _
      · rw [Script.old_append, ih, ih, List.take_append_drop]

theorem new_shortestFrom (n : Nat) (a b : List α) : (shortestFrom n a b).new = b := by
  induction n generalizing a b with
  | zero => exact new_replacement a b
  | succ n ih =>
    rw [shortestFrom]
    simp only [Script.new_append, Script.new_keep]
    have outer := commonStart_append_drop b a
    rw [commonStart_comm] at outer
    generalize commonStart a b = start at outer ⊢
    have inner := take_append_commonEnd (b.drop start.length) (a.drop start.length)
    rw [commonEnd_comm] at inner
    rw [List.append_assoc]
    refine Eq.trans (congrArg (start ++ ·) (Eq.trans (congrArg (· ++ _) ?_) inner)) outer
    split
    · exact new_replacement _ _
    · split
      · exact new_replacement _ _
      · rw [Script.new_append, ih, ih, List.take_append_drop]

theorem old_shortest (a b : List α) : (shortest a b).old = a := old_shortestFrom _ a b

theorem new_shortest (a b : List α) : (shortest a b).new = b := new_shortestFrom _ a b

end TidySql.Diff
