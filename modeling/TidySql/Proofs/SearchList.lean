import TidySql.Proofs.SearchOrder

/-! The directories of the search for a configuration file.
From the directory of an operand the search goes up step by step, and each step takes one component
away, so it ends at the root or at the empty path. What the operands lead to is listed once, in
whichever spelling, and nothing else is listed. -/
namespace TidySql

namespace Path

/-- The path so many steps above, if there are as many. -/
def climb? : Nat → List Char → Option (List Char)
  | 0, path => some path
  | n + 1, path => (parent? path).bind (climb? n)

/-- How many steps there are above a path: one for each component but the root. -/
def height (path : List Char) : Nat := ((components path).filter (· ≠ .root)).length

theorem height_of_top {path : List Char} (top : parent? path = none) : height path = 0 := by
  rcases components_of_parent?_eq_none top with empty | root
  · rw [height, empty]
    rfl
  · rw [height, root]
    rfl

theorem height_of_parent? {path parent : List Char} (above : parent? path = some parent) :
    height path = height parent + 1 := by
  obtain ⟨c, other, eq⟩ := components_of_parent? above
  rw [height, height, eq, List.filter_append, List.length_append]
  simp [other]

theorem climb?_succ (n : Nat) (path : List Char) :
    climb? (n + 1) path = (climb? n path).bind parent? := by
  induction n generalizing path with
  | zero => cases above : parent? path <;> simp [climb?, above]
  | succ n ih =>
    rw [climb?]
    cases above : parent? path with
    | none => simp [climb?, above]
    | some parent => simp [climb?, above, ← ih parent]

theorem getElem?_ancestors (path : List Char) (n : Nat) :
    (ancestors path)[n]? = climb? n path := by
  induction path using ancestors.induct generalizing n with
  | case1 path top =>
    rw [ancestors_of_top top]
    cases n <;> simp [climb?, top]
  | case2 path parent above ih =>
    rw [ancestors_of_parent? above]
    cases n with
    | zero => rfl
    | succ n => simp [climb?, above, ih]

theorem mem_ancestors_iff (path d : List Char) :
    d ∈ ancestors path ↔ ∃ n, climb? n path = some d := by
  simp only [List.mem_iff_getElem?, getElem?_ancestors]

theorem mem_ancestors_of_parent? {path d p : List Char} (listed : d ∈ ancestors path)
    (above : parent? d = some p) : p ∈ ancestors path := by
  rw [mem_ancestors_iff] at listed ⊢
  obtain ⟨n, reached⟩ := listed
  exact ⟨n + 1, by rw [climb?_succ, reached, Option.bind_some, above]⟩

theorem length_ancestors (path : List Char) : (ancestors path).length = height path + 1 := by
  induction path using ancestors.induct with
  | case1 path top => rw [ancestors_of_top top, height_of_top top, List.length_singleton]
  | case2 path parent above ih =>
    rw [ancestors_of_parent? above, List.length_cons, ih, height_of_parent? above]

theorem isSome_climb?_iff (n : Nat) (path : List Char) :
    (climb? n path).isSome ↔ n ≤ height path := by
  rw [← getElem?_ancestors, Option.isSome_iff_ne_none, ne_eq, List.getElem?_eq_none_iff,
    length_ancestors]
  omega

/-- The last step ends at the root or at the empty path. -/
theorem exists_climb?_height (path : List Char) : ∃ top, climb? (height path) path = some top ∧
    parent? top = none ∧ (same top [] = true ∨ same top ['/'] = true) := by
  obtain ⟨top, last⟩ := Option.isSome_iff_exists.mp
    ((isSome_climb?_iff (height path) path).mpr (Nat.le_refl _))
  have none : parent? top = none := by
    rw [← Option.not_isSome_iff_eq_none]
    intro more
    have further : (climb? (height path + 1) path).isSome := by
      rw [climb?_succ, last]
      exact more
    exact absurd ((isSome_climb?_iff _ path).mp further) (Nat.not_succ_le_self _)
  refine ⟨top, last, none, ?_⟩
  rcases components_of_parent?_eq_none none with empty | root
  · exact .inl (beq_iff_eq.mpr empty)
  · exact .inr (beq_iff_eq.mpr root)

end Path

namespace Config

/-- Where the search for an operand starts: in the operand, if it is a directory, or else in the
directory above it. That is the working directory, if the operand names none. -/
inductive StartsAt (t : Tree) (a : List Char) : List Char → Prop where
  | self : t.isDirectory a = true → StartsAt t a a
  | above {d : List Char} : t.isDirectory a = false → Path.parent? a = some d → d ≠ [] →
      StartsAt t a d
  | here : t.isDirectory a = false → Path.parent? a = none ∨ Path.parent? a = some [] →
      StartsAt t a ['.']

theorem startsAt_iff (t : Tree) (a d : List Char) : StartsAt t a d ↔ directoryOf t a = d := by
  unfold directoryOf
  constructor
  · intro h
    cases h with
    | self directory => rw [if_pos directory]
    | above other parent named =>
      rw [if_neg (by simp [other]), parent]
      obtain ⟨c, cs, rfl⟩ := List.exists_cons_of_ne_nil named
      rfl
    | here other unnamed =>
      rw [if_neg (by simp [other])]
      rcases unnamed with none | empty
      · rw [none]
      · rw [empty]
  · rintro rfl
    by_cases directory : t.isDirectory a = true
    · rw [if_pos directory]
      exact .self directory
    · have other : t.isDirectory a = false := by simpa using directory
      rw [if_neg directory]
      split
      · rename_i none
        exact .here other (.inl none)
      · rename_i empty
        exact .here other (.inr empty)
      · rename_i parent named eq
        exact .above other eq named

/-- The directory is where the search for an operand starts, or above. -/
def Searches (t : Tree) (a d : List Char) : Prop :=
  ∃ start n, StartsAt t a start ∧ Path.climb? n start = some d

theorem searches_iff (t : Tree) (a d : List Char) :
    Searches t a d ↔ d ∈ Path.ancestors (directoryOf t a) := by
  simp [Searches, startsAt_iff, Path.mem_ancestors_iff]

/-- The list holds the directories of the search and no others. -/
structure Exhausts (t : Tree) (operands ds : List (List Char)) : Prop where
  distinct : ds.Pairwise fun d e => Path.same d e = false
  sound : ∀ d ∈ ds, ∃ a ∈ operands, Searches t a d
  complete : ∀ a ∈ operands, ∀ d, Searches t a d → ∃ e ∈ ds, Path.same e d = true
  closed : ∀ d ∈ ds, ∀ p, Path.parent? d = some p → ∃ e ∈ ds, Path.same e p = true

/-- The search list is complete and has no repetitions. The search for each operand starts in one
directory, and after a step for each component of it but the root it ends at the top. -/
theorem searchList_exact (t : Tree) (operands : List (List Char)) :
    Exhausts t operands (searchList t operands) ∧
    ∀ a, ∃ start, (∀ d, StartsAt t a d ↔ d = start) ∧
      (∀ n, (Path.climb? n start).isSome ↔ n ≤ Path.height start) ∧
      ∃ top, Path.climb? (Path.height start) start = some top ∧ Path.parent? top = none ∧
        (Path.same top [] = true ∨ Path.same top ['/'] = true) := by
  refine ⟨⟨?_, ?_, ?_, ?_⟩, fun a => ⟨directoryOf t a, ?_, ?_, ?_⟩⟩
  · have distinct := List.pairwise_map.mp (nodup_searchList (t := t) operands)
    exact distinct.imp fun different => beq_eq_false_iff_ne.mpr different
  · intro d listed
    obtain ⟨a, operand, above⟩ := exists_operand_of_mem listed
    exact ⟨a, operand, (searches_iff t a d).mpr above⟩
  · intro a operand d searched
    obtain ⟨e, listed, same⟩ := exists_mem_searchList operand ((searches_iff t a d).mp searched)
    exact ⟨e, listed, beq_iff_eq.mpr same⟩
  · intro d listed p parent
    obtain ⟨a, operand, above⟩ := exists_operand_of_mem listed
    obtain ⟨e, member, same⟩ :=
      exists_mem_searchList operand (Path.mem_ancestors_of_parent? above parent)
    exact ⟨e, member, beq_iff_eq.mpr same⟩
  · intro d
    rw [startsAt_iff, eq_comm]
  · exact fun n => Path.isSome_climb?_iff n _
  · exact Path.exists_climb?_height _

end Config
end TidySql
