import TidySql.Proofs.Locations

/-! Paths by their components.
A name put after a path is one more component, and the path above is the one without the last
component. So the paths above a path have the fronts of its components, each shorter than the one
before it. -/
namespace TidySql.Path

/-- The component that stands for the start of a path, if any does. -/
def lead (path : List Char) : List Component :=
  if isAbsolute path then [.root]
  else if (pieces path).head? = some ['.'] then [.here]
  else []

/-- The components that a path has after its start. -/
def inner (path : List Char) : List Component :=
  ((pieces path).filter fun p => p ≠ [] ∧ p ≠ ['.']).map .ofPiece

theorem components_eq (path : List Char) : components path = lead path ++ inner path := rfl

theorem inner_append_slash (as bs : List Char) : inner (as ++ '/' :: bs) = inner as ++ inner bs := by
  rw [inner, pieces_append_slash, List.filter_append, List.map_append]
  rfl

theorem lead_append_slash (as bs : List Char) : lead (as ++ '/' :: bs) = lead (as ++ ['/']) := by
  obtain ⟨p, ps, eq⟩ := List.exists_cons_of_ne_nil (pieces_ne_nil as)
  have absolute : isAbsolute (as ++ '/' :: bs) = isAbsolute (as ++ ['/']) := by
    cases as <;> rfl
  rw [lead, lead, absolute, pieces_append_slash, pieces_append_slash, eq]
  rfl

theorem components_append_slash (as bs : List Char) :
    components (as ++ '/' :: bs) = components (as ++ ['/']) ++ inner bs := by
  rw [components_eq, components_eq, lead_append_slash, inner_append_slash, inner_append_slash]
  simp [inner, pieces]

theorem lead_concat_slash {as : List Char} (nonempty : as ≠ []) : lead (as ++ ['/']) = lead as := by
  obtain ⟨p, ps, eq⟩ := List.exists_cons_of_ne_nil (pieces_ne_nil as)
  rw [lead, lead, isAbsolute_append _ nonempty, pieces_append_slash, eq]
  rfl

theorem components_concat_slash {as : List Char} (nonempty : as ≠ []) :
    components (as ++ ['/']) = components as := by
  rw [components_eq, components_eq, lead_concat_slash nonempty, inner_append_slash]
  simp [inner, pieces]

theorem inner_of_piece {piece : List Char} (plain : '/' ∉ piece) (nonempty : piece ≠ [])
    (other : piece ≠ ['.']) : inner piece = [.ofPiece piece] := by
  rw [inner, pieces_of_no_slash plain, List.filter_cons_of_pos (by simp [nonempty, other])]
  rfl

theorem components_join {path n : List Char} (nonempty : path ≠ []) (name : isName n = true) :
    components (join path n) = components path ++ [.name n] := by
  obtain ⟨some, notDot, notUp, plain⟩ := (isName_iff n).mp name
  have last : inner n = [.name n] := by
    rw [inner_of_piece plain some notDot, Component.ofPiece, if_neg notUp]
  rcases join_cases path n with ⟨empty, -⟩ | ⟨as, rfl, eq⟩ | ⟨-, eq⟩
  · exact absurd empty nonempty
  · rw [eq, components_append_slash, last]
  · rw [eq, components_append_slash, components_concat_slash nonempty, last]

/-! ### The path above -/

theorem components_trimEnding (cs : List Char) :
    components (trimEnding cs).reverse = components cs.reverse := by
  fun_induction trimEnding cs with
  | case1 cs empty =>
    obtain rfl : cs = [] := by simpa using empty
    rfl
  | case2 cs nonempty ih =>
    rw [ih, List.reverse_cons, components_concat_slash (by simpa using nonempty)]
  | case3 cs ih =>
    rw [ih, List.reverse_cons, List.reverse_cons, List.reverse_cons, List.append_assoc]
    exact ((components_append_slash cs.reverse ['.']).trans (List.append_nil _)).symm
  | case4 => rfl

/-- What is left after the ending is empty, or the root, or ends in a piece that counts. -/
theorem trimEnding_cases (cs : List Char) : trimEnding cs = [] ∨ trimEnding cs = ['/'] ∨
    ∃ d ds, trimEnding cs = d :: ds ∧ d ≠ '/' ∧ ¬ (d = '.' ∧ ds.head? = some '/') := by
  fun_induction trimEnding cs with
  | case1 => exact .inr (.inl rfl)
  | case2 cs _ ih => exact ih
  | case3 cs ih => exact ih
  | case4 cs noSlash noDot =>
    cases cs with
    | nil => exact .inl rfl
    | cons d ds =>
      refine .inr (.inr ⟨d, ds, rfl, ?_, ?_⟩)
      · rintro rfl
        exact noSlash ds rfl
      · rintro ⟨rfl, head⟩
        obtain ⟨ds, rfl⟩ := List.head?_eq_some_iff.mp head
        exact noDot ds rfl

theorem components_of_parent?_eq_none {path : List Char} (top : parent? path = none) :
    components path = [] ∨ components path = [.root] := by
  rw [← List.reverse_reverse path, ← components_trimEnding]
  rcases trimEnding_cases path.reverse with eq | eq | ⟨d, ds, eq, other, -⟩
  · rw [eq]
    exact .inl rfl
  · rw [eq]
    exact .inr rfl
  · simp [parent?, eq, other] at top

theorem ofPiece_ne_root (piece : List Char) : Component.ofPiece piece ≠ .root := by
  unfold Component.ofPiece
  split <;> simp

theorem components_of_no_slash {piece : List Char} (plain : '/' ∉ piece) (nonempty : piece ≠ []) :
    ∃ c, c ≠ .root ∧ components piece = [c] := by
  by_cases dot : piece = ['.']
  · subst dot
    exact ⟨.here, by simp, rfl⟩
  · refine ⟨.ofPiece piece, ofPiece_ne_root piece, ?_⟩
    have relative : isAbsolute piece = false := by
      obtain ⟨c, cs, rfl⟩ := List.exists_cons_of_ne_nil nonempty
      have other : c ≠ '/' := fun same => plain (by simp [same])
      simpa [isAbsolute] using other
    rw [components_eq, inner_of_piece plain nonempty dot, lead, relative, pieces_of_no_slash plain]
    simp [dot]

/-- The last piece of a path is its last component. Both are given from their ends. -/
theorem components_reverse_append {last rest : List Char} (plain : '/' ∉ last)
    (nonempty : last ≠ []) (stop : rest = [] ∨ ∃ as, rest = '/' :: as)
    (counts : last = ['.'] → rest = []) :
    ∃ c, c ≠ .root ∧ components (last ++ rest).reverse = components rest.reverse ++ [c] := by
  have plain' : '/' ∉ last.reverse := fun member => plain (List.mem_reverse.mp member)
  have nonempty' : last.reverse ≠ [] := by simpa using nonempty
  rcases stop with rfl | ⟨as, rfl⟩
  · rw [List.append_nil]
    exact components_of_no_slash plain' nonempty'
  · have notDot : last.reverse ≠ ['.'] := by
      intro dot
      have single : last = ['.'] := by simpa using congrArg List.reverse dot
      cases counts single
    refine ⟨.ofPiece last.reverse, ofPiece_ne_root _, ?_⟩
    rw [List.reverse_append, List.reverse_cons, List.append_assoc, List.singleton_append,
      components_append_slash, inner_of_piece plain' nonempty' notDot]

/-- The path above lacks the last component, which is not the root. -/
theorem components_of_parent? {path parent : List Char} (above : parent? path = some parent) :
    ∃ c, c ≠ .root ∧ components path = components parent ++ [c] := by
  rcases trimEnding_cases path.reverse with eq | eq | ⟨d, ds, eq, other, kept⟩
  · simp [parent?, eq] at above
  · simp [parent?, eq] at above
  · simp only [parent?, eq, if_neg other, Option.some.injEq] at above
    have whole : components (d :: ds).reverse = components path := by
      rw [← eq, components_trimEnding, List.reverse_reverse]
    have cut := List.takeWhile_append_dropWhile (p := (· != '/')) (l := d :: ds)
    have before := List.all_takeWhile (p := (· != '/')) (l := d :: ds)
    have stop := List.head?_dropWhile_not (· != '/') (d :: ds)
    rw [← whole, ← above, components_trimEnding]
    generalize (d :: ds).dropWhile (· != '/') = rest at cut stop ⊢
    rw [List.takeWhile_cons_of_pos (by simpa using other)] at cut before
    rw [← cut]
    apply components_reverse_append
    · intro member
      simpa using List.all_eq_true.mp before _ member
    · simp
    · cases rest with
      | nil => exact .inl rfl
      | cons s as =>
        obtain rfl : s = '/' := by simpa using stop
        exact .inr ⟨as, rfl⟩
    · intro dot
      obtain ⟨isDot, nothing⟩ := List.cons.inj dot
      rw [nothing, List.cons_append, List.nil_append] at cut
      cases rest with
      | nil => rfl
      | cons s as =>
        obtain rfl : s = '/' := by simpa using stop
        exact absurd ⟨isDot, by rw [← (List.cons.inj cut).2]; rfl⟩ kept

/-! ### All the paths above -/

theorem ancestors_of_top {path : List Char} (top : parent? path = none) :
    ancestors path = [path] := by
  rw [ancestors]
  split
  · rfl
  · simp_all

theorem ancestors_of_parent? {path parent : List Char} (above : parent? path = some parent) :
    ancestors path = path :: ancestors parent := by
  rw [ancestors]
  split <;> simp_all

/-- The components are those of the path, or a front of them which leaves out no root. -/
theorem mem_components_ancestors_iff (path : List Char) (cs : List Component) :
    cs ∈ (ancestors path).map components ↔
      ∃ rest, .root ∉ rest ∧ components path = cs ++ rest := by
  induction path using ancestors.induct with
  | case1 path top =>
    rw [ancestors_of_top top, List.map_singleton, List.mem_singleton]
    constructor
    · rintro rfl
      exact ⟨[], by simp, by simp⟩
    · rintro ⟨rest, noRoot, eq⟩
      rcases components_of_parent?_eq_none top with empty | root
      · rw [empty] at eq ⊢
        exact (List.append_eq_nil_iff.mp eq.symm).1
      · rw [root] at eq ⊢
        rcases List.append_eq_singleton_iff.mp eq.symm with ⟨-, rfl⟩ | ⟨rfl, -⟩
        · simp at noRoot
        · rfl
  | case2 path parent above ih =>
    obtain ⟨c, other, eq⟩ := components_of_parent? above
    rw [ancestors_of_parent? above, List.map_cons, List.mem_cons, ih]
    constructor
    · rintro (rfl | ⟨rest, noRoot, front⟩)
      · exact ⟨[], by simp, by simp⟩
      · refine ⟨rest ++ [c], ?_, by rw [eq, front, List.append_assoc]⟩
        simpa [noRoot] using Ne.symm other
    · rintro ⟨rest, noRoot, front⟩
      rcases List.eq_nil_or_concat rest with rfl | ⟨rest, c', rfl⟩
      · left
        simpa using front.symm
      · right
        rw [List.concat_eq_append, ← List.append_assoc] at front
        obtain ⟨front, -⟩ := List.append_inj' (eq.symm.trans front) rfl
        exact ⟨rest, fun root => noRoot (by simp [root]), front⟩

/-- Each path above has fewer components than the paths before it. -/
theorem pairwise_ancestors (path : List Char) :
    (ancestors path).Pairwise fun p q => (components q).length < (components p).length := by
  induction path using ancestors.induct with
  | case1 path top =>
    rw [ancestors_of_top top]
    exact List.pairwise_singleton _ _
  | case2 path parent above ih =>
    rw [ancestors_of_parent? above, List.pairwise_cons]
    refine ⟨fun q member => ?_, ih⟩
    obtain ⟨c, -, eq⟩ := components_of_parent? above
    obtain ⟨rest, -, front⟩ :=
      (mem_components_ancestors_iff parent _).mp (List.mem_map_of_mem member)
    rw [eq, front, List.length_append, List.length_append, List.length_singleton]
    omega

end TidySql.Path
