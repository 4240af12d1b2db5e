import Mathlib.Data.Char
import Mathlib.Data.List.Lex
import Mathlib.Data.List.Sort
import Mathlib.Data.Prod.Lex
import TidySql.Selection

/-! The order of paths.
Paths compare as the lists of their components, in lexicographic order, and components
compare by their kind and then by their names. The comparison of the run is this order.
So after the sort the spellings of one path are neighbours, and one of them stays. -/
namespace TidySql

section
variable {α : Type} [LinearOrder α]

theorem nil_le (as : List α) : [] ≤ as := not_lt.mp (List.not_lt_nil as)

theorem not_cons_le_nil (a : α) (as : List α) : ¬ a :: as ≤ [] := not_le.mpr (List.nil_lt_cons a as)

theorem cons_le_cons_iff (a b : α) (as bs : List α) :
    a :: as ≤ b :: bs ↔ a < b ∨ (a = b ∧ as ≤ bs) := by
  rw [le_iff_lt_or_eq, List.cons_lt_cons_iff, List.cons.injEq, le_iff_lt_or_eq (a := as),
    or_assoc, ← and_or_left]

end

namespace Component

/-- The text of a name. The other components have none. -/
def text : Component → List Char
  | name n => n
  | _ => []

/-- What components compare by. -/
def key (c : Component) : ℕ ×ₗ List Char := toLex (c.rank, c.text)

theorem key_injective : Function.Injective key := by
  intro a b same
  obtain ⟨rank, text⟩ := Prod.mk.inj (toLex_inj.mp same)
  cases a <;> cases b <;> simp_all [Component.rank, Component.text]

instance : LinearOrder Component := LinearOrder.lift' key key_injective

theorem textLe_iff (as bs : List Char) : textLe as bs = true ↔ as ≤ bs := by
  fun_induction textLe as bs with
  | case1 bs => simp [nil_le]
  | case2 a as => simp [not_cons_le_nil]
  | case3 a as b bs ih => simp [cons_le_cons_iff, ih]

theorem le_iff (a b : Component) : a.le b = true ↔ a ≤ b := by
  change _ ↔ a.key ≤ b.key
  rw [key, key, Prod.Lex.toLex_le_toLex]
  cases a <;> cases b <;> simp [Component.le, rank, text, textLe_iff]

end Component

namespace Path

theorem componentsLe_iff (as bs : List Component) : componentsLe as bs = true ↔ as ≤ bs := by
  induction as, bs using componentsLe.induct with
  | case1 bs => simp [componentsLe, nil_le]
  | case2 a as => simp [componentsLe, not_cons_le_nil]
  | case3 a as bs ih => simp [componentsLe, cons_le_cons_iff, ih]
  | case4 a as b bs other =>
    rw [componentsLe, if_neg other, Component.le_iff, cons_le_cons_iff, le_iff_lt_or_eq]
    simp [other]

theorem le_iff (p q : List Char) : le p q = true ↔ components p ≤ components q :=
  componentsLe_iff _ _

theorem same_iff (p q : List Char) : same p q = true ↔ components p = components q := beq_iff_eq

theorem pairwise_mergeSort (ps : List (List Char)) :
    ((ps.mergeSort le).map components).Pairwise (· ≤ ·) := by
  have sorted := @List.pairwise_mergeSort _ le
    (fun p q r first second => (le_iff p r).mpr
      (le_trans ((le_iff p q).mp first) ((le_iff q r).mp second)))
    (fun p q => by
      rw [Bool.or_eq_true, le_iff, le_iff]
      exact le_total _ _) ps
  rw [List.pairwise_map]
  exact sorted.imp fun {p q} => (le_iff p q).mp

end Path

namespace Selection

theorem mem_of_mem_dropRepeats {p : List Char} {ps : List (List Char)} (h : p ∈ dropRepeats ps) :
    p ∈ ps := by
  induction ps with
  | nil => exact h
  | cons q ps ih =>
    rw [dropRepeats] at h
    cases rest : dropRepeats ps with
    | nil =>
      simp only [rest] at h
      exact List.mem_cons.mpr (.inl (List.mem_singleton.mp h))
    | cons r rs =>
      simp only [rest] at h ih
      split at h
      · rcases List.mem_cons.mp h with rfl | member
        · exact List.mem_cons_self
        · exact List.mem_cons_of_mem q (ih (List.mem_cons_of_mem r member))
      · rcases List.mem_cons.mp h with rfl | member
        · exact List.mem_cons_self
        · exact List.mem_cons_of_mem q (ih member)

/-- A path is left out if it is a spelling of the next one that stays. -/
theorem components_dropRepeats_cons (p : List Char) (ps : List (List Char)) :
    (dropRepeats (p :: ps)).map Path.components =
      if ((dropRepeats ps).map Path.components).head? = some (Path.components p) then
        (dropRepeats ps).map Path.components
      else Path.components p :: (dropRepeats ps).map Path.components := by
  rw [dropRepeats]
  cases dropRepeats ps with
  | nil => rfl
  | cons q qs =>
    dsimp only
    by_cases same : Path.components p = Path.components q
    · rw [if_pos ((Path.same_iff p q).mpr same)]
      simp [same]
    · rw [if_neg fun h => same ((Path.same_iff p q).mp h)]
      simp [Ne.symm same]

theorem mem_components_dropRepeats (cs : List Component) (ps : List (List Char)) :
    cs ∈ (dropRepeats ps).map Path.components ↔ cs ∈ ps.map Path.components := by
  induction ps with
  | nil => rfl
  | cons p ps ih =>
    rw [components_dropRepeats_cons, List.map_cons, List.mem_cons, ← ih]
    split
    · rename_i head
      have member := List.mem_of_head? head
      exact ⟨.inr, fun h => h.elim (fun same => same ▸ member) id⟩
    · rw [List.mem_cons]

theorem pairwise_dropRepeats {ps : List (List Char)}
    (sorted : (ps.map Path.components).Pairwise (· ≤ ·)) :
    ((dropRepeats ps).map Path.components).Pairwise (· < ·) := by
  induction ps with
  | nil => exact List.Pairwise.nil
  | cons p ps ih =>
    rw [List.map_cons, List.pairwise_cons] at sorted
    have rest := ih sorted.2
    have least : ∀ cs ∈ (dropRepeats ps).map Path.components, Path.components p ≤ cs :=
      fun cs member => sorted.1 cs ((mem_components_dropRepeats cs ps).mp member)
    rw [components_dropRepeats_cons]
    split
    · exact rest
    · rename_i other
      -- What stays of the rest increases, so it is enough to be below the first of it.
      cases kept : (dropRepeats ps).map Path.components with
      | nil => exact List.pairwise_singleton _ _
      | cons c cs =>
        rw [kept] at rest least other
        have first : Path.components p < c :=
          lt_of_le_of_ne (least c List.mem_cons_self) fun same => other (by rw [same]; rfl)
        refine List.pairwise_cons.mpr ⟨fun d member => ?_, rest⟩
        rcases List.mem_cons.mp member with rfl | later
        · exact first
        · exact first.trans (List.rel_of_pairwise_cons rest later)

end Selection
end TidySql
