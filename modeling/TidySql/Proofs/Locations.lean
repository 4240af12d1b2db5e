import TidySql.Selection

/-! Paths and the locations that they lead to.
A name put after the path of a directory leads one step down, and a path that leads to a
file ends in the name of that file. Contents have no part in it. -/
namespace TidySql
namespace Path

theorem pieces_append_slash (as bs : List Char) :
    pieces (as ++ '/' :: bs) = pieces as ++ pieces bs := by
  induction as with
  | nil => simp [pieces]
  | cons c as ih =>
    rw [List.cons_append, pieces, pieces]
    by_cases slash : c = '/'
    · rw [if_pos slash, if_pos slash, ih, List.cons_append]
    · obtain ⟨p, ps, eq⟩ := List.exists_cons_of_ne_nil (pieces_ne_nil as)
      rw [if_neg slash, if_neg slash, ih, eq]
      rfl

theorem pieces_of_no_slash {n : List Char} (plain : '/' ∉ n) : pieces n = [n] := by
  induction n with
  | nil => rfl
  | cons c cs ih =>
    have other : c ≠ '/' := fun same => plain (by simp [same])
    rw [pieces, if_neg other, ih fun member => plain (List.mem_cons_of_mem c member)]

theorem isName_iff (n : List Char) :
    isName n = true ↔ n ≠ [] ∧ n ≠ ['.'] ∧ n ≠ ['.', '.'] ∧ '/' ∉ n := by
  rw [isName, decide_eq_true_iff]

theorem pieces_name {n : List Char} (name : isName n = true) : pieces n = [n] :=
  pieces_of_no_slash ((isName_iff n).mp name).2.2.2

theorem isAbsolute_of_no_slash {n : List Char} (plain : '/' ∉ n) : isAbsolute n = false := by
  cases n with
  | nil => rfl
  | cons c cs =>
    have other : c ≠ '/' := fun same => plain (by simp [same])
    simpa [isAbsolute] using other

theorem isAbsolute_name {n : List Char} (name : isName n = true) : isAbsolute n = false :=
  isAbsolute_of_no_slash ((isName_iff n).mp name).2.2.2

/-- A joined path has the pieces of its base, but for a slash that may end it. -/
theorem join_cases (base n : List Char) : (base = [] ∧ join base n = n) ∨
    (∃ lead, base = lead ++ ['/'] ∧ join base n = lead ++ '/' :: n) ∨
    (base ≠ [] ∧ join base n = base ++ '/' :: n) := by
  unfold join
  by_cases empty : base = []
  · left
    simp [empty]
  · right
    by_cases slash : base.getLast? = some '/'
    · left
      obtain ⟨lead, rfl⟩ := List.getLast?_eq_some_iff.mp slash
      refine ⟨lead, rfl, ?_⟩
      simp
    · right
      simp [empty, slash]

theorem isAbsolute_append {base : List Char} (rest : List Char) (nonempty : base ≠ []) :
    isAbsolute (base ++ rest) = isAbsolute base := by
  obtain ⟨c, cs, rfl⟩ := List.exists_cons_of_ne_nil nonempty
  rfl

theorem getLast?_pieces_join (base : List Char) {n : List Char} (name : isName n = true) :
    (pieces (join base n)).getLast? = some n := by
  rcases join_cases base n with ⟨-, eq⟩ | ⟨lead, -, eq⟩ | ⟨-, eq⟩
  · rw [eq, pieces_name name]
    rfl
  · rw [eq, pieces_append_slash, pieces_name name, List.getLast?_concat]
  · rw [eq, pieces_append_slash, pieces_name name, List.getLast?_concat]

/-- The last piece of a path names it, unless the piece counts for nothing. -/
theorem name?_of_getLast? {path n : List Char} (last : (pieces path).getLast? = some n)
    (name : isName n = true) : name? path = some n := by
  obtain ⟨nonempty, notDot, notUp, -⟩ := (isName_iff n).mp name
  obtain ⟨lead, eq⟩ := List.getLast?_eq_some_iff.mp last
  have whole : ∃ cs, components path = cs ++ [.name n] := by
    simp only [components, eq, List.filter_append, List.map_append]
    rw [List.filter_cons_of_pos (by simp [nonempty, notDot]), List.filter_nil, List.map_singleton,
      Component.ofPiece, if_neg notUp, ← List.append_assoc]
    exact ⟨_, rfl⟩
  obtain ⟨cs, whole⟩ := whole
  rw [name?, whole, List.getLast?_concat]

end Path

theorem Mode.isSqlPath_eq {path n : List Char} (last : (Path.pieces path).getLast? = some n)
    (name : Path.isName n = true) : isSqlPath path = isSqlPath n := by
  have own : Path.name? n = some n :=
    Path.name?_of_getLast? (by rw [Path.pieces_name name]; rfl) name
  unfold isSqlPath Path.extension?
  rw [Path.name?_of_getLast? last name, own]

namespace Tree

theorem isName_of_get? {t : Tree} {l : Location} {e : Entry} (found : t.get? l = some e) :
    ∀ n ∈ l, Path.isName n = true := by
  by_cases root : l = []
  · simp [root]
  · exact (t.named l e ((t.get?_eq_some_iff root e).mp found)).2

theorem enter_eq_some {t : Tree} {l l' : Location} {piece : List Char}
    (h : t.enter l piece = some l') : t.get? l = some .directory ∧
      (((piece = [] ∨ piece = ['.']) ∧ l' = l) ∨ (piece = ['.', '.'] ∧ l' = l.dropLast) ∨
        (Path.isName piece = true ∧ l' = l ++ [piece] ∧ (t.get? l').isSome = true)) := by
  unfold enter at h
  split at h
  · cases h
  · rename_i directory
    refine ⟨Classical.not_not.mp directory, ?_⟩
    split at h
    · rename_i stays
      cases h
      exact .inl ⟨stays, rfl⟩
    · split at h
      · rename_i up
        cases h
        exact .inr (.inl ⟨up, rfl⟩)
      · split at h
        · rename_i stands
          cases h
          obtain ⟨e, found⟩ := Option.isSome_iff_exists.mp stands
          exact .inr (.inr ⟨isName_of_get? found piece (by simp), rfl, stands⟩)
        · cases h

theorem get?_dropLast {t : Tree} {l : Location} (directory : t.get? l = some .directory) :
    t.get? l.dropLast = some .directory := by
  rcases List.eq_nil_or_concat l with root | ⟨above, n, rfl⟩
  · rw [root]
    rfl
  · rw [List.concat_eq_append] at directory ⊢
    rw [List.dropLast_concat]
    exact t.get?_above above n (by rw [directory]; rfl)

theorem enter_name {t : Tree} {l : Location} {n : Name} (directory : t.get? l = some .directory)
    (name : Path.isName n = true) (stands : (t.get? (l ++ [n])).isSome = true) :
    t.enter l n = some (l ++ [n]) := by
  obtain ⟨nonempty, notDot, notUp, -⟩ := (Path.isName_iff n).mp name
  simp [enter, directory, nonempty, notDot, notUp, stands]

theorem locate?_eq (t : Tree) {path : List Char} (nonempty : path ≠ []) : t.locate? path =
    (Path.pieces path).foldlM t.enter (if Path.isAbsolute path = true then [] else t.cwd) := by
  rw [locate?, if_neg nonempty]

theorem ne_nil_of_locate? {t : Tree} {path : List Char} {l : Location}
    (h : t.locate? path = some l) : path ≠ [] := by
  rintro rfl
  cases h

theorem locate?_concat {t : Tree} {path : List Char} {l : Location} {lead : List (List Char)}
    {n : List Char} (pieces : Path.pieces path = lead ++ [n]) (h : t.locate? path = some l) :
    ∃ k, t.enter k n = some l := by
  rw [locate?_eq t (ne_nil_of_locate? h), pieces, List.foldlM_append] at h
  obtain ⟨k, -, step⟩ := Option.bind_eq_some_iff.mp h
  refine ⟨k, ?_⟩
  simpa using step

/-- A path that leads to a file ends in the name of that file. -/
theorem locate?_file {t : Tree} {path : List Char} {l : Location} {content : List UInt8}
    (h : t.locate? path = some l) (file : t.get? l = some (.file content)) :
    ∃ above n, l = above ++ [n] ∧ (Path.pieces path).getLast? = some n ∧
      Path.isName n = true := by
  obtain ⟨lead, n, pieces⟩ := (List.eq_nil_or_concat _).resolve_left (Path.pieces_ne_nil path)
  rw [List.concat_eq_append] at pieces
  obtain ⟨k, step⟩ := locate?_concat pieces h
  obtain ⟨directory, ⟨-, rfl⟩ | ⟨-, rfl⟩ | ⟨name, rfl, -⟩⟩ := enter_eq_some step
  · rw [directory] at file
    cases file
  · rw [get?_dropLast directory] at file
    cases file
  · refine ⟨k, n, rfl, ?_, name⟩
    rw [pieces, List.getLast?_concat]

theorem enter_of_not_directory {t : Tree} {l : Location} {piece : List Char}
    (other : t.get? l ≠ some .directory) : t.enter l piece = none := by
  rw [enter, if_pos other]

/-- A piece put after a path is one more step from where the path leads. -/
theorem locate?_join_eq_bind (t : Tree) {path n : List Char} (nonempty : path ≠ [])
    (plain : '/' ∉ n) :
    t.locate? (Path.join path n) = (t.locate? path).bind fun l => t.enter l n := by
  rw [locate?_eq t nonempty]
  rcases Path.join_cases path n with ⟨empty, -⟩ | ⟨lead, rfl, eq⟩ | ⟨-, eq⟩
  · exact absurd empty nonempty
  · have absolute : Path.isAbsolute (lead ++ '/' :: n) = Path.isAbsolute (lead ++ ['/']) := by
      rw [← Path.isAbsolute_append n nonempty, List.append_assoc]
      rfl
    rw [eq, locate?_eq t (by simp), Path.pieces_append_slash, Path.pieces_append_slash,
      Path.pieces_of_no_slash plain, List.foldlM_append, List.foldlM_append, absolute]
    cases (Path.pieces lead).foldlM t.enter
        (if Path.isAbsolute (lead ++ ['/']) = true then [] else t.cwd) with
    | none => rfl
    | some k =>
      -- The slash at the end of the path is an empty piece, which stays in a directory.
      by_cases directory : t.get? k = some .directory
      · simp [Path.pieces, enter, directory]
      · simp [Path.pieces, enter_of_not_directory directory]
  · rw [eq, locate?_eq t (by simp), Path.pieces_append_slash, Path.pieces_of_no_slash plain,
      List.foldlM_append, Path.isAbsolute_append _ nonempty]
    simp
/-- A name put after the path of a directory is the next step from that directory. -/
theorem locate?_join_eq_enter {t : Tree} {path : List Char} {l : Location} {n : Name}
    (h : t.locate? path = some l) (name : Path.isName n = true) :
    t.locate? (Path.join path n) = t.enter l n := by
  rw [locate?_join_eq_bind t (ne_nil_of_locate? h) ((Path.isName_iff n).mp name).2.2.2, h]
  rfl

/-- A name put after the path of a directory leads to the entry of that name. -/
theorem locate?_join {t : Tree} {path : List Char} {l : Location} {n : Name}
    (h : t.locate? path = some l) (directory : t.get? l = some .directory)
    (stands : (t.get? (l ++ [n])).isSome = true) (name : Path.isName n = true) :
    t.locate? (Path.join path n) = some (l ++ [n]) := by
  rw [locate?_join_eq_enter h name]
  exact enter_name directory name stands

theorem locate?_name {t : Tree} {n : Name} (stands : (t.get? (t.cwd ++ [n])).isSome = true) :
    t.locate? n = some (t.cwd ++ [n]) := by
  obtain ⟨e, found⟩ := Option.isSome_iff_exists.mp stands
  have name := isName_of_get? found n (by simp)
  have nonempty := ((Path.isName_iff n).mp name).1
  rw [locate?_eq t nonempty, Path.pieces_name name, Path.isAbsolute_name name]
  simpa using enter_name (t.get?_above _ _ stands) name stands

end Tree
end TidySql
