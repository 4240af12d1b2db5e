import TidySql.Proofs.Walk
import TidySql.Proofs.Wildcards

/-! Which paths an operand with marks stands for.
A step of the pattern leads from a path to those where something stands under a name that
matches, and the pattern finds the paths that its steps lead to one after the other. Each name of
a path is a text that the wildcards of its step make up, and what stands there is told by the
tree alone. -/
namespace TidySql

/-! ### Where names lead -/

namespace Tree
variable {t : Tree}

theorem get?_of_locate? {path : List Char} {l : Location} (h : t.locate? path = some l) :
    (t.get? l).isSome = true := by
  obtain ⟨lead, n, pieces⟩ := (List.eq_nil_or_concat _).resolve_left (Path.pieces_ne_nil path)
  rw [List.concat_eq_append] at pieces
  obtain ⟨k, step⟩ := locate?_concat pieces h
  obtain ⟨directory, ⟨-, rfl⟩ | ⟨-, rfl⟩ | ⟨-, -, stands⟩⟩ := enter_eq_some step
  · rw [directory]
    rfl
  · rw [get?_dropLast directory]
    rfl
  · exact stands

theorem contains_iff (path : List Char) :
    t.contains path = true ↔ ∃ l, t.locate? path = some l := by
  rw [contains, find?]
  constructor
  · intro stands
    obtain ⟨e, found⟩ := Option.isSome_iff_exists.mp stands
    obtain ⟨l, place, -⟩ := Option.bind_eq_some_iff.mp found
    exact ⟨l, place⟩
  · rintro ⟨l, place⟩
    rw [place, Option.bind_some]
    exact get?_of_locate? place

theorem contains_of_isDirectory {path : List Char} (h : t.isDirectory path = true) :
    t.contains path = true := by
  obtain ⟨l, place, -⟩ := (t.isDirectory_iff path).mp h
  exact (contains_iff path).mpr ⟨l, place⟩

theorem ne_nil_of_contains {path : List Char} (h : t.contains path = true) : path ≠ [] := by
  obtain ⟨l, place⟩ := (contains_iff path).mp h
  exact ne_nil_of_locate? place

theorem eq_of_enter_name {l l' : Location} {n : Name} (name : Path.isName n = true)
    (h : t.enter l n = some l') : l' = l ++ [n] ∧ (t.get? l').isSome = true := by
  obtain ⟨nonempty, notDot, notUp, -⟩ := (Path.isName_iff n).mp name
  obtain ⟨-, ⟨stays, -⟩ | ⟨up, -⟩ | ⟨-, eq, stands⟩⟩ := enter_eq_some h
  · exact (stays.elim nonempty notDot).elim
  · exact absurd up notUp
  · exact ⟨eq, stands⟩

/-- The two names of dots lead on from every directory. -/
theorem bind_enter_dots_iff {path n : List Char} (dots : n = ['.'] ∨ n = ['.', '.']) :
    (∃ k, ((t.locate? path).bind fun l => t.enter l n) = some k) ↔ t.isDirectory path = true := by
  rw [isDirectory_iff]
  simp only [Option.bind_eq_some_iff]
  constructor
  · rintro ⟨k, l, place, step⟩
    exact ⟨l, place, (enter_eq_some step).1⟩
  · rintro ⟨l, place, directory⟩
    rcases dots with rfl | rfl
    · exact ⟨l, l, place, by simp [enter, directory]⟩
    · exact ⟨l.dropLast, l, place, by simp [enter, directory]⟩

end Tree

namespace Glob

/-! ### Names below a path -/

section
variable {t : Tree} {path : List Char}

theorem pathBelow_ne_nil {n : Name} (name : Path.isName n = true) : pathBelow path n ≠ [] := by
  have nonempty := ((Path.isName_iff n).mp name).1
  unfold pathBelow Path.join
  split
  · exact nonempty
  · split <;> simp [nonempty]

/-- The working directory need not be named before its entries. -/
theorem locate?_pathBelow_piece (nonempty : path ≠ []) {n : List Char} (some : n ≠ [])
    (plain : '/' ∉ n) :
    t.locate? (pathBelow path n) = (t.locate? path).bind fun l => t.enter l n := by
  rw [pathBelow]
  by_cases here : path = ['.']
  · have start : t.locate? ['.'] = t.enter t.cwd ['.'] := by
      rw [Tree.locate?_eq t (by simp)]
      simp [Path.pieces, Path.isAbsolute]
    rw [if_pos here, here, start, Tree.locate?_eq t some, Path.pieces_of_no_slash plain,
      Path.isAbsolute_of_no_slash plain]
    by_cases directory : t.get? t.cwd = .some .directory
    · simp [Tree.enter, directory]
    · simp [Tree.enter_of_not_directory directory]
  · rw [if_neg here]
    exact Tree.locate?_join_eq_bind t nonempty plain

theorem locate?_pathBelow (nonempty : path ≠ []) {n : Name} (name : Path.isName n = true) :
    t.locate? (pathBelow path n) = (t.locate? path).bind fun l => t.enter l n := by
  obtain ⟨some, -, -, plain⟩ := (Path.isName_iff n).mp name
  exact locate?_pathBelow_piece nonempty some plain

/-- A directory has the two names of dots in both spellings. -/
theorem contains_dots_iff (nonempty : path ≠ []) {n : List Char}
    (dots : n = ['.'] ∨ n = ['.', '.']) :
    (t.contains (pathBelow path n) = true ↔ t.isDirectory path = true) ∧
      (t.contains (Path.join path n) = true ↔ t.isDirectory path = true) := by
  have some : n ≠ [] := by rcases dots with rfl | rfl <;> decide
  have plain : '/' ∉ n := by rcases dots with rfl | rfl <;> decide
  rw [Tree.contains_iff, Tree.contains_iff, locate?_pathBelow_piece nonempty some plain,
    Tree.locate?_join_eq_bind t nonempty plain, Tree.bind_enter_dots_iff dots]
  exact ⟨Iff.rfl, Iff.rfl⟩

theorem mem_namesIn_iff (nonempty : path ≠ []) (n : Name) :
    n ∈ namesIn t path ↔ Path.isName n = true ∧ t.contains (pathBelow path n) = true := by
  rw [namesIn]
  cases place : t.locate? path with
  | none =>
    simp only [List.not_mem_nil, false_iff, not_and]
    intro name stands
    obtain ⟨l, found⟩ := (Tree.contains_iff _).mp stands
    rw [locate?_pathBelow nonempty name, place] at found
    cases found
  | some l =>
    have child : n ∈ (t.children l).map Prod.fst ↔ ∃ e, t.get? (l ++ [n]) = some e := by
      simp only [List.mem_map, Prod.exists, t.mem_children_iff, exists_and_right, exists_eq_right]
    rw [List.mem_mergeSort, child, Tree.contains_iff]
    constructor
    · rintro ⟨e, found⟩
      have name := Tree.isName_of_get? found n (by simp)
      have stands := Option.isSome_of_eq_some found
      rw [locate?_pathBelow nonempty name, place]
      exact ⟨name, _, Tree.enter_name (t.get?_above l n stands) name stands⟩
    · rintro ⟨name, k, found⟩
      rw [locate?_pathBelow nonempty name, place] at found
      obtain ⟨rfl, stands⟩ := Tree.eq_of_enter_name name found
      exact Option.isSome_iff_exists.mp stands

/-- Names below a path lead below where the path leads. -/
theorem locate?_foldl_pathBelow (nonempty : path ≠ []) {names : List Name}
    (proper : ∀ n ∈ names, Path.isName n = true) {k : Location}
    (h : t.locate? (names.foldl pathBelow path) = some k) :
    ∃ l, t.locate? path = some l ∧ k = l ++ names := by
  induction names generalizing path with
  | nil => exact ⟨k, h, by simp⟩
  | cons n names ih =>
    obtain ⟨name, proper⟩ := List.forall_mem_cons.mp proper
    obtain ⟨l', place', rfl⟩ := ih (pathBelow_ne_nil name) proper h
    rw [locate?_pathBelow nonempty name] at place'
    obtain ⟨l, place, step⟩ := Option.bind_eq_some_iff.mp place'
    obtain ⟨rfl, -⟩ := Tree.eq_of_enter_name name step
    exact ⟨l, place, by simp⟩

theorem mem_descendants_iff (bound : Nat) (nonempty : path ≠ []) (q : List Char) (n : Name) :
    (q, n) ∈ descendants t bound path ↔ ∃ names, names.length < bound ∧
      (∀ m ∈ names ++ [n], Path.isName m = true) ∧ q = (names ++ [n]).foldl pathBelow path ∧
        t.contains q = true := by
  induction bound generalizing path with
  | zero => simp [descendants]
  | succ bound ih =>
    simp only [descendants, List.mem_flatMap, List.mem_cons, Prod.mk.injEq,
      mem_namesIn_iff nonempty]
    constructor
    · rintro ⟨m, ⟨name, stands⟩, ⟨rfl, rfl⟩ | below⟩
      · exact ⟨[], by simp, by simpa using name, rfl, stands⟩
      · obtain ⟨names, short, proper, rfl, stands'⟩ := (ih (pathBelow_ne_nil name)).mp below
        exact ⟨m :: names, Nat.succ_lt_succ short, List.forall_mem_cons.mpr ⟨name, proper⟩, rfl,
          stands'⟩
    · rintro ⟨names, short, proper, rfl, stands⟩
      cases names with
      | nil => exact ⟨n, ⟨by simpa using proper, stands⟩, .inl ⟨rfl, rfl⟩⟩
      | cons m names =>
        obtain ⟨name, proper⟩ := List.forall_mem_cons.mp proper
        obtain ⟨k, place⟩ := (Tree.contains_iff _).mp stands
        obtain ⟨l, above, -⟩ := locate?_foldl_pathBelow (pathBelow_ne_nil name) proper place
        refine ⟨m, ⟨name, (Tree.contains_iff _).mpr ⟨l, above⟩⟩, .inr ?_⟩
        exact (ih (pathBelow_ne_nil name)).mpr
          ⟨names, Nat.lt_of_succ_lt_succ short, proper, rfl, stands⟩

end

/-! ### Steps -/

/-- A step of a pattern leads from a path to paths where something stands. -/
inductive Step.Leads (t : Tree) (s : Step) (path : List Char) : List Char → Prop where
  /-- A name without marks may be any piece of a path, also one that is no name of an entry. -/
  | plain {name : List Char} : s.deep = false → s.pattern = name.map .literal →
      t.contains (pathBelow path name) = true → Leads t s path (pathBelow path name)
  | entry {name : Name} : s.deep = false → Wildcard.HasMarks s.pattern →
      Path.isName name = true → Wildcard.Matches s.pattern name →
      t.contains (pathBelow path name) = true → Leads t s path (pathBelow path name)
  /-- A pattern with marks has to start with a dot to match the two names of dots. -/
  | dots {name : List Char} : s.deep = false → Wildcard.HasMarks s.pattern →
      s.pattern.head? = some (.literal '.') → name = ['.'] ∨ name = ['.', '.'] →
      Wildcard.Matches s.pattern name → t.contains (Path.join path name) = true →
      Leads t s path (Path.join path name)
  /-- A deep step passes over any names before the one that matches. -/
  | deep {names : List Name} {name : Name} : s.deep = true →
      (∀ n ∈ names ++ [name], Path.isName n = true) → Wildcard.Matches s.pattern name →
      t.contains ((names ++ [name]).foldl pathBelow path) = true →
      Leads t s path ((names ++ [name]).foldl pathBelow path)

/-- The steps lead from one path to another, each from where the one before it has led. -/
inductive Reaches (t : Tree) : List Step → List Char → List Char → Prop where
  | stay (path : List Char) : Reaches t [] path path
  | step {s : Step} {ss : List Step} {path next q : List Char} :
      s.Leads t path next → Reaches t ss next q → Reaches t (s :: ss) path q

/-- What the end of a pattern asks of a path: two stars ask for a directory anywhere below, and a
slash for a directory. -/
def PathPattern.Ends (t : Tree) (p : PathPattern) (path q : List Char) : Prop :=
  if p.endsDeep then
    ∃ names, names ≠ [] ∧ (∀ n ∈ names, Path.isName n = true) ∧ q = names.foldl pathBelow path ∧
      t.isDirectory q = true
  else q = path ∧ (p.onlyDirectories = true → t.isDirectory path = true)

section
variable {t : Tree} {path q : List Char}

theorem Step.Leads.contains {s : Step} {next : List Char} (h : s.Leads t path next) :
    t.contains next = true := by
  cases h <;> assumption

/-- No names below a path are more than the tree is deep. -/
theorem mem_descendants_depth_iff (nonempty : path ≠ []) (n : Name) :
    (q, n) ∈ descendants t t.depth path ↔ ∃ names, (∀ m ∈ names ++ [n], Path.isName m = true) ∧
      q = (names ++ [n]).foldl pathBelow path ∧ t.contains q = true := by
  rw [mem_descendants_iff _ nonempty]
  constructor
  · rintro ⟨names, -, found⟩
    exact ⟨names, found⟩
  · rintro ⟨names, proper, rfl, stands⟩
    obtain ⟨k, place⟩ := (Tree.contains_iff _).mp stands
    obtain ⟨l, -, rfl⟩ := locate?_foldl_pathBelow nonempty proper place
    obtain ⟨e, found⟩ := Option.isSome_iff_exists.mp (Tree.get?_of_locate? place)
    have short := Tree.length_le_depth found
    simp only [List.length_append, List.length_singleton] at short
    exact ⟨names, by omega, proper, rfl, stands⟩

theorem mem_expand_nil_iff (p : PathPattern) (nonempty : path ≠ []) :
    q ∈ p.expand t [] path ↔ p.Ends t path q := by
  rw [PathPattern.expand, PathPattern.Ends]
  by_cases deep : p.endsDeep = true
  · rw [if_pos deep, if_pos deep]
    simp only [List.mem_filter, List.mem_map, Prod.exists, exists_and_right, exists_eq_right,
      mem_descendants_depth_iff nonempty]
    constructor
    · rintro ⟨⟨n, names, proper, rfl, -⟩, directory⟩
      exact ⟨names ++ [n], by simp, proper, rfl, directory⟩
    · rintro ⟨names, some, proper, rfl, directory⟩
      obtain ⟨above, n, rfl⟩ := (List.eq_nil_or_concat names).resolve_left some
      rw [List.concat_eq_append] at proper directory ⊢
      exact ⟨⟨n, above, proper, rfl, Tree.contains_of_isDirectory directory⟩, directory⟩
  · rw [if_neg deep, if_neg deep]
    cases p.onlyDirectories <;> cases t.isDirectory path <;> simp

section
variable (p : PathPattern) {s : Step} (ss : List Step) (nonempty : path ≠ [])
include nonempty

theorem mem_expand_deep_iff (deep : s.deep = true) :
    q ∈ p.expand t (s :: ss) path ↔ ∃ next, s.Leads t path next ∧ q ∈ p.expand t ss next := by
  rw [PathPattern.expand, if_pos deep]
  simp only [List.mem_flatMap, Prod.exists, List.mem_ite_nil_right, Wildcard.accepts_iff,
    mem_descendants_depth_iff nonempty]
  constructor
  · rintro ⟨_, n, ⟨names, proper, rfl, stands⟩, fits, found⟩
    exact ⟨_, .deep deep proper fits stands, found⟩
  · rintro ⟨_, leads, found⟩
    cases leads with
    | deep _ proper fits stands => exact ⟨_, _, ⟨_, proper, rfl, stands⟩, fits, found⟩
    | plain shallow | entry shallow | dots shallow => exact absurd deep (by simp [shallow])

/-- A name without marks is looked up, and of its lookups only that of dots is told apart. -/
theorem mem_expand_plain_iff (shallow : s.deep = false) {name : List Char}
    (written : Wildcard.literal? s.pattern = some name) :
    q ∈ p.expand t (s :: ss) path ↔ ∃ next, s.Leads t path next ∧ q ∈ p.expand t ss next := by
  have looked : (if name = ['.'] ∨ name = ['.', '.'] then t.isDirectory path
      else t.contains (pathBelow path name)) = t.contains (pathBelow path name) := by
    split
    · rename_i dots
      exact Bool.eq_iff_iff.mpr (contains_dots_iff nonempty dots).1.symm
    · rfl
  have expanded : p.expand t (s :: ss) path =
      if t.contains (pathBelow path name) = true then p.expand t ss (pathBelow path name)
      else [] := by
    rw [← looked, PathPattern.expand, if_neg (by simp [shallow]), written]
    rfl
  rw [expanded, List.mem_ite_nil_right]
  constructor
  · rintro ⟨stands, found⟩
    exact ⟨_, .plain shallow ((Wildcard.literal?_eq_some_iff _ _).mp written) stands, found⟩
  · rintro ⟨_, leads, found⟩
    cases leads with
    | plain _ eq stands =>
      have same := (Wildcard.literal?_eq_some_iff _ _).mpr eq
      obtain rfl := Option.some.inj (written.symm.trans same)
      exact ⟨stands, found⟩
    | entry _ marks | dots _ marks =>
      cases written.symm.trans ((Wildcard.literal?_eq_none_iff _).mpr marks)
    | deep below => exact absurd below (by simp [shallow])

theorem mem_expand_marked_iff (shallow : s.deep = false)
    (written : Wildcard.literal? s.pattern = none) :
    q ∈ p.expand t (s :: ss) path ↔ ∃ next, s.Leads t path next ∧ q ∈ p.expand t ss next := by
  have marks := (Wildcard.literal?_eq_none_iff s.pattern).mp written
  have dotted (name : List Char) : (name ∈ if s.pattern.head? = some (.literal '.')
      then [['.'], ['.', '.']] else []) ↔
        s.pattern.head? = some (.literal '.') ∧ (name = ['.'] ∨ name = ['.', '.']) := by
    simp [List.mem_ite_nil_right]
  rw [PathPattern.expand, if_neg (by simp [shallow]), written]
  simp only [List.mem_append, List.mem_flatMap, List.mem_filter, mem_namesIn_iff nonempty,
    Wildcard.accepts_iff, dotted, Bool.and_eq_true]
  constructor
  · rintro (⟨name, ⟨⟨proper, stands⟩, fits⟩, found⟩ |
      ⟨name, ⟨⟨first, dots⟩, directory, fits⟩, found⟩)
    · exact ⟨_, .entry shallow marks proper fits stands, found⟩
    · have stands := (contains_dots_iff nonempty dots).2.mpr directory
      exact ⟨_, .dots shallow marks first dots fits stands, found⟩
  · rintro ⟨_, leads, found⟩
    cases leads with
    | plain _ eq =>
      cases written.symm.trans ((Wildcard.literal?_eq_some_iff _ _).mpr eq)
    | entry _ _ proper fits stands => exact .inl ⟨_, ⟨⟨proper, stands⟩, fits⟩, found⟩
    | dots _ _ first dots fits stands =>
      have directory := (contains_dots_iff nonempty dots).2.mp stands
      exact .inr ⟨_, ⟨⟨first, dots⟩, directory, fits⟩, found⟩
    | deep below => exact absurd below (by simp [shallow])

theorem mem_expand_cons_iff :
    q ∈ p.expand t (s :: ss) path ↔ ∃ next, s.Leads t path next ∧ q ∈ p.expand t ss next := by
  by_cases deep : s.deep = true
  · exact mem_expand_deep_iff p ss nonempty deep
  · have shallow : s.deep = false := Bool.not_eq_true _ ▸ deep
    cases written : Wildcard.literal? s.pattern with
    | some name => exact mem_expand_plain_iff p ss nonempty shallow written
    | none => exact mem_expand_marked_iff p ss nonempty shallow written

end

theorem mem_expand_iff (p : PathPattern) (ss : List Step) (nonempty : path ≠ []) :
    q ∈ p.expand t ss path ↔ ∃ last, Reaches t ss path last ∧ p.Ends t last q := by
  induction ss generalizing path with
  | nil =>
    rw [mem_expand_nil_iff p nonempty]
    constructor
    · exact fun ends => ⟨path, .stay path, ends⟩
    · rintro ⟨_, ⟨⟩, ends⟩
      exact ends
  | cons s ss ih =>
    rw [mem_expand_cons_iff p ss nonempty]
    constructor
    · rintro ⟨next, leads, found⟩
      obtain ⟨last, reaches, ends⟩ := (ih (Tree.ne_nil_of_contains leads.contains)).mp found
      exact ⟨last, .step leads reaches, ends⟩
    · rintro ⟨last, _ | @⟨_, _, _, next, _, leads, reaches⟩, ends⟩
      exact ⟨next, leads, (ih (Tree.ne_nil_of_contains leads.contains)).mpr ⟨last, reaches, ends⟩⟩

end

/-! ### Operands -/

/-- The steps of the pattern lead to the path, from the root or from the working directory. -/
def PathPattern.Finds (t : Tree) (p : PathPattern) (q : List Char) : Prop :=
  ∃ last, Reaches t p.steps (if p.isAbsolute then ['/'] else ['.']) last ∧ p.Ends t last q

/-- The paths that an operand stands for. It is a pattern if it leads nowhere, has marks and is
well formed. -/
inductive Denotes (t : Tree) (operand : List Char) : List Char → Prop where
  | itself : t.contains operand = true ∨ (∀ c ∈ operand, c ∉ ['*', '?', '[']) ∨
      PathPattern.parse? operand = none → Denotes t operand operand
  | found {p : PathPattern} {q : List Char} : t.contains operand = false →
      (∃ c ∈ operand, c ∈ ['*', '?', '[']) → PathPattern.parse? operand = some p →
      p.Finds t q → Denotes t operand q

theorem expandOperand_of_marked {t : Tree} {operand : List Char}
    (nowhere : t.contains operand = false) (marked : ∃ c ∈ operand, c ∈ ['*', '?', '[']) :
    expandOperand t operand = (PathPattern.parse? operand).elim [operand] fun p =>
      p.expand t p.steps (if p.isAbsolute then ['/'] else ['.']) := by
  obtain ⟨c, member, mark⟩ := marked
  have found : operand.any Wildcard.isMark = true :=
    List.any_eq_true.mpr ⟨c, member, List.contains_iff_mem.mpr mark⟩
  rw [expandOperand, if_neg (by simp [nowhere, found])]
  cases PathPattern.parse? operand <;> rfl

/-- An operand is replaced by the paths that it stands for. -/
theorem mem_expandOperand_iff (t : Tree) (operand q : List Char) :
    q ∈ expandOperand t operand ↔ Denotes t operand q := by
  by_cases plain : t.contains operand = true ∨ ∀ c ∈ operand, c ∉ ['*', '?', '[']
  · rw [Selection.expandOperand_of_plain plain, List.mem_singleton]
    constructor
    · rintro rfl
      exact .itself (plain.imp_right .inl)
    · rintro (_ | ⟨nowhere, ⟨c, member, mark⟩, -, -⟩)
      · rfl
      · rcases plain with stands | unmarked
        · exact absurd stands (by simp [nowhere])
        · exact absurd mark (unmarked c member)
  · obtain ⟨nowhere, marked⟩ := not_or.mp plain
    rw [Bool.not_eq_true] at nowhere
    simp only [not_forall, not_not, exists_prop] at marked
    rw [expandOperand_of_marked nowhere marked]
    cases read : PathPattern.parse? operand with
    | none =>
      rw [Option.elim_none, List.mem_singleton]
      constructor
      · rintro rfl
        exact .itself (.inr (.inr read))
      · rintro (_ | ⟨-, -, read', -⟩)
        · rfl
        · cases read.symm.trans read'
    | some p =>
      rw [Option.elim_some, mem_expand_iff p p.steps (by split <;> simp)]
      constructor
      · exact fun finds => .found nowhere marked read finds
      · rintro (unread | ⟨-, -, read', finds⟩)
        · rcases unread with stands | unmarked | unread
          · exact absurd (.inl stands) plain
          · exact absurd (.inr unmarked) plain
          · cases read.symm.trans unread
        · obtain rfl := Option.some.inj (read.symm.trans read')
          exact finds

end Glob

namespace Selection

/-- The selected paths are those of the files that the operands stand for, or that are below the
directories that they stand for. -/
theorem paths_denoted (t : Tree) (m : Mode) (operands : List (List Char)) :
    (∀ p ∈ paths t m operands, ∃ o ∈ operands, ∃ a, Glob.Denotes t o a ∧ Selects t m a p) ∧
    ∀ o ∈ operands, ∀ a, Glob.Denotes t o a → ∀ p, Selects t m a p →
      Path.components p ∈ (paths t m operands).map Path.components := by
  constructor
  · intro p selected
    obtain ⟨a, expanded, selects⟩ := selects_of_mem_paths selected
    obtain ⟨o, operand, found⟩ := List.mem_flatMap.mp expanded
    exact ⟨o, operand, a, (Glob.mem_expandOperand_iff t o a).mp found, selects⟩
  · intro o operand a denotes p selects
    have found := (Glob.mem_expandOperand_iff t o a).mpr denotes
    exact components_mem_paths (List.mem_flatMap.mpr ⟨o, operand, found⟩) selects

end Selection
end TidySql
