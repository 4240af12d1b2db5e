import TidySql.Glob.Wildcard

/-! Which names a pattern accepts.
A name is accepted if and only if it can be cut into texts that the wildcards of the pattern stand
for. A pattern without marks accepts the one name that it writes out. -/
namespace TidySql.Glob.Wildcard

/-- The texts that one wildcard stands for. -/
def StandsFor : Wildcard → List Char → Prop
  | literal c, text => text = [c]
  | anyOne, text => ∃ c, text = [c]
  | star, _ => True
  | set negated rs, text => ∃ c, text = [c] ∧ ((∃ r ∈ rs, r.1 ≤ c ∧ c ≤ r.2) ↔ negated = false)

/-- The name is made up of texts that the wildcards stand for, in their order. -/
inductive Matches : List Wildcard → List Char → Prop where
  | nil : Matches [] []
  | cons {w : Wildcard} {ps : List Wildcard} {text rest : List Char} :
      w.StandsFor text → Matches ps rest → Matches (w :: ps) (text ++ rest)

theorem matches_cons_iff {w : Wildcard} {ps : List Wildcard} {name : List Char} :
    Matches (w :: ps) name ↔
      ∃ text rest, w.StandsFor text ∧ Matches ps rest ∧ name = text ++ rest := by
  constructor
  · intro h
    cases h with
    | cons here later => exact ⟨_, _, here, later, rfl⟩
  · rintro ⟨text, rest, here, later, rfl⟩
    exact .cons here later

/-- A wildcard that stands for single characters takes the first one of the name. -/
theorem matches_one_iff {w : Wildcard} {P : Char → Prop}
    (one : ∀ text, w.StandsFor text ↔ ∃ c, text = [c] ∧ P c) (ps : List Wildcard) (c : Char)
    (name : List Char) : Matches (w :: ps) (c :: name) ↔ P c ∧ Matches ps name := by
  simp only [matches_cons_iff, one]
  constructor
  · rintro ⟨_, rest, ⟨d, rfl, holds⟩, later, eq⟩
    cases eq
    exact ⟨holds, later⟩
  · rintro ⟨holds, later⟩
    exact ⟨[c], name, ⟨c, rfl, holds⟩, later, rfl⟩

/-- A star takes no text, or the first character and then more. -/
theorem matches_star_cons_iff (ps : List Wildcard) (c : Char) (name : List Char) :
    Matches (.star :: ps) (c :: name) ↔ Matches ps (c :: name) ∨ Matches (.star :: ps) name := by
  constructor
  · intro h
    obtain ⟨text, rest, -, later, eq⟩ := matches_cons_iff.mp h
    cases text with
    | nil => exact .inl (eq ▸ later)
    | cons d text =>
      cases eq
      exact .inr (.cons trivial later)
  · rintro (later | h)
    · exact matches_cons_iff.mpr ⟨[], c :: name, trivial, later, rfl⟩
    · obtain ⟨text, rest, -, later, rfl⟩ := matches_cons_iff.mp h
      exact matches_cons_iff.mpr ⟨c :: text, rest, trivial, later, rfl⟩

theorem matches_star_nil_iff (ps : List Wildcard) :
    Matches (.star :: ps) [] ↔ Matches ps [] := by
  constructor
  · intro h
    obtain ⟨text, rest, -, later, eq⟩ := matches_cons_iff.mp h
    obtain ⟨rfl, rfl⟩ := List.append_eq_nil_iff.mp eq.symm
    exact later
  · exact fun later => matches_cons_iff.mpr ⟨[], [], trivial, later, rfl⟩

theorem matches_nil_iff (name : List Char) : Matches [] name ↔ name = [] := by
  constructor
  · intro h
    cases h
    rfl
  · rintro rfl
    exact .nil

/-- Only a star stands for no text. -/
theorem ne_nil_of_standsFor {w : Wildcard} {text : List Char} (other : w ≠ .star)
    (h : w.StandsFor text) : text ≠ [] := by
  cases w with
  | literal c => simpa [StandsFor] using h ▸ List.cons_ne_nil c []
  | anyOne =>
    obtain ⟨c, rfl⟩ := h
    exact List.cons_ne_nil c []
  | star => exact absurd rfl other
  | set negated rs =>
    obtain ⟨c, rfl, -⟩ := h
    exact List.cons_ne_nil c []

theorem accepts_iff (ps : List Wildcard) (name : List Char) :
    accepts ps name = true ↔ Matches ps name := by
  fun_induction accepts ps name with
  | case1 name => rw [matches_nil_iff, List.isEmpty_iff]
  | case2 c ps d name ih =>
    rw [matches_one_iff (P := (· = c)) (by simp [StandsFor]), Bool.and_eq_true, beq_iff_eq, ih,
      eq_comm]
  | case3 ps d name ih =>
    rw [matches_one_iff (P := fun _ => True) (by simp [StandsFor]), ih, true_and]
  | case4 negated rs ps d name ih =>
    rw [matches_one_iff (fun text => Iff.rfl), Bool.and_eq_true, ih]
    refine and_congr_left fun _ => ?_
    cases negated <;> simp
  | case5 ps ih => rw [matches_star_nil_iff, ih]
  | case6 ps d name ih1 ih2 => rw [matches_star_cons_iff, Bool.or_eq_true, ih1, ih2]
  | case7 w ps other =>
    have none : ¬ Matches (w :: ps) [] := by
      intro h
      obtain ⟨text, rest, here, -, eq⟩ := matches_cons_iff.mp h
      exact ne_nil_of_standsFor other here (List.append_eq_nil_iff.mp eq.symm).1
    simp [none]

theorem literal?_literal (c : Char) (ps : List Wildcard) :
    literal? (.literal c :: ps) = (literal? ps).map (c :: ·) := by
  rw [literal?, List.mapM_cons, Option.map_eq_bind]
  rfl

theorem literal?_mark {w : Wildcard} (mark : ∀ c, w ≠ .literal c) (ps : List Wildcard) :
    literal? (w :: ps) = none := by
  rw [literal?, List.mapM_cons]
  cases w with
  | literal c => exact absurd rfl (mark c)
  | _ => rfl

theorem literal?_eq_some_iff (ps : List Wildcard) (name : List Char) :
    literal? ps = some name ↔ ps = name.map .literal := by
  induction ps generalizing name with
  | nil => cases name <;> simp [literal?]
  | cons w ps ih =>
    cases w with
    | literal c =>
      rw [literal?_literal, Option.map_eq_some_iff]
      cases name with
      | nil => simp
      | cons d name =>
        constructor
        · rintro ⟨rest, written, eq⟩
          cases eq
          rw [(ih name).mp written, List.map_cons]
        · intro eq
          cases eq
          exact ⟨name, (ih name).mpr rfl, rfl⟩
    | _ => cases name <;> simp [literal?_mark]

/-- Some wildcard of the pattern stands for more than one text. -/
def HasMarks (ps : List Wildcard) : Prop := ∃ w ∈ ps, ∀ c, w ≠ .literal c

theorem literal?_eq_none_iff (ps : List Wildcard) : literal? ps = none ↔ HasMarks ps := by
  induction ps with
  | nil => simp [literal?, HasMarks]
  | cons w ps ih =>
    simp only [HasMarks, List.mem_cons, exists_eq_or_imp]
    rw [← HasMarks, ← ih]
    cases w with
    | literal c => simp [literal?_literal]
    | _ => simp [literal?_mark]

end TidySql.Glob.Wildcard
