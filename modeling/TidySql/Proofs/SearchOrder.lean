import Mathlib.Data.List.Basic
import TidySql.Proofs.Components
import TidySql.Proofs.Precedence

/-! The order of the search for a configuration file.
The search takes the operands in their order, and for each of them it goes from its directory
upwards. A directory that is met again is not searched again. So one operand is searched from the
nearest directory on, but a directory that two operands share comes before what is nearer to the
second one. -/
namespace TidySql

namespace Path

/-- The path is the directory, or it goes on from there. -/
def IsWithin (path directory : List Char) : Prop :=
  ∃ rest, .root ∉ rest ∧ components path = components directory ++ rest

/-- The path goes on from the directory by names. -/
def IsBelow (path directory : List Char) : Prop :=
  ∃ names : List Name, names ≠ [] ∧ components path = components directory ++ names.map .name

theorem IsWithin.of_isBelow {path e d : List Char} (within : IsWithin path e) (below : IsBelow e d) :
    IsWithin path d := by
  obtain ⟨rest, noRoot, eq⟩ := within
  obtain ⟨names, -, front⟩ := below
  refine ⟨names.map .name ++ rest, ?_, by rw [eq, front, List.append_assoc]⟩
  simpa using noRoot

theorem IsBelow.length_lt {e d : List Char} (below : IsBelow e d) :
    (components d).length < (components e).length := by
  obtain ⟨names, nonempty, eq⟩ := below
  have some := List.length_pos_of_ne_nil nonempty
  rw [eq, List.length_append, List.length_map]
  omega

end Path

namespace Config

/-! ### Directories that are met again -/

theorem any_same_iff (seen : List (List Char)) (p : List Char) :
    seen.any (Path.same p) = true ↔ Path.components p ∈ seen.map Path.components := by
  rw [List.any_eq_true, List.mem_map]
  exact exists_congr fun q => and_congr_right fun _ => beq_iff_eq.trans eq_comm

/-- The directories that are put after those that were seen: the ones that are new, in their
order. -/
theorem exists_foldl_eq_append (ps seen : List (List Char)) : ∃ new,
    ps.foldl (fun seen p => if seen.any (Path.same p) then seen else seen ++ [p]) seen = seen ++ new ∧
    new.Sublist ps ∧ (new.map Path.components).Nodup ∧
    (∀ p ∈ new, Path.components p ∉ seen.map Path.components) ∧
    ∀ p ∈ ps, Path.components p ∈ (seen ++ new).map Path.components := by
  induction ps generalizing seen with
  | nil => exact ⟨[], by simp⟩
  | cons p ps ih =>
    rw [List.foldl_cons]
    by_cases met : Path.components p ∈ seen.map Path.components
    · obtain ⟨new, eq, order, distinct, fresh, all⟩ := ih seen
      rw [if_pos ((any_same_iff seen p).mpr met)]
      refine ⟨new, eq, order.cons p, distinct, fresh, List.forall_mem_cons.mpr ⟨?_, all⟩⟩
      rw [List.map_append]
      exact List.mem_append_left _ met
    · obtain ⟨new, eq, order, distinct, fresh, all⟩ := ih (seen ++ [p])
      rw [if_neg fun h => met ((any_same_iff seen p).mp h)]
      simp only [List.map_append, List.map_cons, List.map_nil, List.mem_append, List.mem_singleton,
        not_or] at fresh
      refine ⟨p :: new, by rw [eq, List.append_assoc]; rfl, order.cons_cons p, ?_, ?_, ?_⟩
      · rw [List.map_cons, List.nodup_cons]
        refine ⟨fun again => ?_, distinct⟩
        obtain ⟨q, member, same⟩ := List.mem_map.mp again
        exact (fresh q member).2 same
      · exact List.forall_mem_cons.mpr ⟨met, fun q member => (fresh q member).1⟩
      · rw [List.append_cons]
        refine List.forall_mem_cons.mpr ⟨?_, all⟩
        simp

variable {t : Tree}

/-- What more operands add to the search. -/
theorem exists_searchList_append (xs ys : List (List Char)) : ∃ new,
    searchList t (xs ++ ys) = searchList t xs ++ new ∧
    new.Sublist (ys.flatMap fun a => Path.ancestors (directoryOf t a)) ∧
    (new.map Path.components).Nodup ∧
    (∀ p ∈ new, Path.components p ∉ (searchList t xs).map Path.components) ∧
    ∀ p ∈ ys.flatMap fun a => Path.ancestors (directoryOf t a),
      Path.components p ∈ (searchList t (xs ++ ys)).map Path.components := by
  have split : searchList t (xs ++ ys) = (ys.flatMap fun a => Path.ancestors (directoryOf t a)).foldl
      (fun seen p => if seen.any (Path.same p) then seen else seen ++ [p]) (searchList t xs) := by
    rw [searchList, List.flatMap_append, List.foldl_append]
    rfl
  obtain ⟨new, eq, rest⟩ := exists_foldl_eq_append
    (ys.flatMap fun a => Path.ancestors (directoryOf t a)) (searchList t xs)
  rw [split, eq]
  exact ⟨new, rfl, rest⟩

theorem nodup_searchList (operands : List (List Char)) :
    ((searchList t operands).map Path.components).Nodup := by
  obtain ⟨new, eq, -, distinct, -⟩ := exists_searchList_append (t := t) [] operands
  rw [List.nil_append] at eq
  rw [eq]
  exact distinct

theorem exists_operand_of_mem {operands : List (List Char)} {d : List Char}
    (listed : d ∈ searchList t operands) :
    ∃ a ∈ operands, d ∈ Path.ancestors (directoryOf t a) := by
  obtain ⟨new, eq, order, -⟩ := exists_searchList_append (t := t) [] operands
  rw [List.nil_append] at eq
  rw [eq] at listed
  exact List.mem_flatMap.mp (order.subset listed)

/-- What is above an operand is listed, in the spelling that was met first. -/
theorem exists_mem_searchList {operands : List (List Char)} {a d : List Char}
    (operand : a ∈ operands) (above : d ∈ Path.ancestors (directoryOf t a)) :
    ∃ e ∈ searchList t operands, Path.components e = Path.components d := by
  obtain ⟨new, -, -, -, -, all⟩ := exists_searchList_append (t := t) [] operands
  exact List.mem_map.mp (all d (List.mem_flatMap.mpr ⟨a, operand, above⟩))

/-- The directories of the search are those that the operands are in. -/
theorem mem_searchList_iff (operands : List (List Char)) (d : List Char) :
    Path.components d ∈ (searchList t operands).map Path.components ↔
      ∃ a ∈ operands, Path.IsWithin (directoryOf t a) d := by
  constructor
  · intro member
    obtain ⟨p, listed, same⟩ := List.mem_map.mp member
    obtain ⟨a, operand, above⟩ := exists_operand_of_mem listed
    refine ⟨a, operand, (Path.mem_components_ancestors_iff _ _).mp ?_⟩
    rw [← same]
    exact List.mem_map_of_mem above
  · rintro ⟨a, operand, within⟩
    obtain ⟨p, above, same⟩ := List.mem_map.mp ((Path.mem_components_ancestors_iff _ _).mpr within)
    obtain ⟨e, listed, same'⟩ := exists_mem_searchList operand above
    rw [← same, ← same']
    exact List.mem_map_of_mem listed

/-! ### Positions -/

/-- The number of directories that are searched before one. -/
def position (t : Tree) (operands : List (List Char)) (d : List Char) : Nat :=
  ((searchList t operands).map Path.components).idxOf (Path.components d)

/-- The first operand in the directory `d` is not in `e`. -/
def MetFirst (t : Tree) (operands : List (List Char)) (d e : List Char) : Prop :=
  ∃ before a after, operands = before ++ a :: after ∧
    (∀ b ∈ before, ¬ Path.IsWithin (directoryOf t b) d) ∧
    Path.IsWithin (directoryOf t a) d ∧ ¬ Path.IsWithin (directoryOf t a) e

theorem position_of_mem {xs ys : List (List Char)} {d : List Char}
    (met : Path.components d ∈ (searchList t xs).map Path.components) :
    position t (xs ++ ys) d = position t xs d := by
  obtain ⟨new, eq, -⟩ := exists_searchList_append (t := t) xs ys
  rw [position, position, eq, List.map_append, List.idxOf_append_of_mem met]

theorem position_lt_length {operands : List (List Char)} {d : List Char}
    (met : Path.components d ∈ (searchList t operands).map Path.components) :
    position t operands d < (searchList t operands).length := by
  rw [position, ← List.length_map (f := Path.components)]
  exact List.idxOf_lt_length_of_mem met

theorem length_le_position {xs : List (List Char)} {d : List Char}
    (new : Path.components d ∉ (searchList t xs).map Path.components) (ys : List (List Char)) :
    (searchList t xs).length ≤ position t (xs ++ ys) d := by
  obtain ⟨ds, eq, -⟩ := exists_searchList_append (t := t) xs ys
  rw [position, eq, List.map_append, List.idxOf_append_of_notMem new, List.length_map]
  exact Nat.le_add_right _ _

/-- In a list of decreasing lengths the longer of two members comes first. -/
theorem idxOf_lt_of_pairwise {α : Type} [DecidableEq α] {xss : List (List α)}
    (decreasing : xss.Pairwise fun xs ys => ys.length < xs.length) {xs ys : List α}
    (first : xs ∈ xss) (second : ys ∈ xss) (longer : ys.length < xs.length) :
    xss.idxOf xs < xss.idxOf ys := by
  have here := List.idxOf_lt_length_of_mem first
  have there := List.idxOf_lt_length_of_mem second
  rcases Nat.lt_trichotomy (xss.idxOf xs) (xss.idxOf ys) with before | same | after
  · exact before
  · obtain rfl : xs = ys := by
      rw [← List.getElem_idxOf here, ← List.getElem_idxOf there]
      simp only [same]
    omega
  · have shorter := List.pairwise_iff_getElem.mp decreasing _ _ there here after
    rw [List.getElem_idxOf, List.getElem_idxOf] at shorter
    omega

section
variable {before : List (List Char)} {a d e : List Char}
  (earlier : ∀ b ∈ before, ¬ Path.IsWithin (directoryOf t b) d)
  (within : Path.IsWithin (directoryOf t a) d) (below : Path.IsBelow e d)
include earlier below

theorem not_met_of_isBelow : Path.components d ∉ (searchList t before).map Path.components ∧
    Path.components e ∉ (searchList t before).map Path.components := by
  rw [mem_searchList_iff, mem_searchList_iff]
  constructor
  · rintro ⟨b, operand, inside⟩
    exact earlier b operand inside
  · rintro ⟨b, operand, inside⟩
    exact earlier b operand (inside.of_isBelow below)

include within

/-- On the way up from one operand the nearer directory comes first. -/
theorem position_lt_of_isWithin (inside : Path.IsWithin (directoryOf t a) e)
    (after : List (List Char)) :
    position t (before ++ a :: after) e < position t (before ++ a :: after) d := by
  obtain ⟨newD, newE⟩ := not_met_of_isBelow earlier below
  have metD := (mem_searchList_iff (t := t) (before ++ [a]) d).mpr ⟨a, by simp, within⟩
  have metE := (mem_searchList_iff (t := t) (before ++ [a]) e).mpr ⟨a, by simp, inside⟩
  rw [List.append_cons, position_of_mem metD, position_of_mem metE]
  obtain ⟨new, eq, order, -⟩ := exists_searchList_append (t := t) before [a]
  rw [List.flatMap_singleton] at order
  -- Both are new with this operand, and its way up meets the longer one first.
  have decreasing : (new.map Path.components).Pairwise fun xs ys => ys.length < xs.length :=
    List.pairwise_map.mpr ((Path.pairwise_ancestors _).sublist order)
  rw [eq, List.map_append, List.mem_append] at metD metE
  rw [position, position, eq, List.map_append, List.idxOf_append_of_notMem newD,
    List.idxOf_append_of_notMem newE]
  have first := idxOf_lt_of_pairwise decreasing (metE.resolve_left newE) (metD.resolve_left newD)
    below.length_lt
  omega

/-- What is nearer only to a later operand comes later. -/
theorem position_lt_of_not_isWithin (outside : ¬ Path.IsWithin (directoryOf t a) e)
    (after : List (List Char)) :
    position t (before ++ a :: after) d < position t (before ++ a :: after) e := by
  obtain ⟨-, newE⟩ := not_met_of_isBelow earlier below
  have metD := (mem_searchList_iff (t := t) (before ++ [a]) d).mpr ⟨a, by simp, within⟩
  have late : Path.components e ∉ (searchList t (before ++ [a])).map Path.components := by
    rw [mem_searchList_iff] at newE ⊢
    rintro ⟨b, operand, inside⟩
    rcases List.mem_append.mp operand with first | last
    · exact newE ⟨b, first, inside⟩
    · obtain rfl := List.mem_singleton.mp last
      exact outside inside
  have first := position_lt_length metD
  have second := length_le_position late after
  rw [List.append_cons, position_of_mem metD]
  omega

end

/-- Some operand is the first one in a directory of the search. -/
theorem exists_first_isWithin {operands : List (List Char)} {d : List Char}
    (searched : d ∈ searchList t operands) : ∃ before a after, operands = before ++ a :: after ∧
      (∀ b ∈ before, ¬ Path.IsWithin (directoryOf t b) d) ∧ Path.IsWithin (directoryOf t a) d := by
  classical
  obtain ⟨b, operand, inside⟩ :=
    (mem_searchList_iff operands d).mp (List.mem_map_of_mem searched)
  have some : (operands.find? fun a => decide (Path.IsWithin (directoryOf t a) d)).isSome = true :=
    List.find?_isSome.mpr ⟨b, operand, decide_eq_true inside⟩
  obtain ⟨a, found⟩ := Option.isSome_iff_exists.mp some
  obtain ⟨within, before, after, split, earlier⟩ := List.find?_eq_some_iff_append.mp found
  exact ⟨before, a, after, split, by simpa using earlier, of_decide_eq_true within⟩

/-- What is found stands in a directory before which no directory of the search has a file. -/
theorem exists_of_discover {operands : List (List Char)} {p : List Char}
    (found : discover t operands = some p) : ∃ d ∈ searchList t operands,
      p ∈ fileNames.map (Path.join d) ∧ ∀ e ∈ searchList t operands,
        (∃ n ∈ fileNames, t.isFile (Path.join e n) = true) → Path.IsBelow e d →
          position t operands d < position t operands e := by
  obtain ⟨before, d, after, split, here, none⟩ := List.findSome?_eq_some_iff.mp found
  refine ⟨d, by simp [split], List.mem_of_find?_eq_some here, ?_⟩
  rintro e searched ⟨n, name, file⟩ below
  have distinct := nodup_searchList (t := t) operands
  rw [split, List.map_append, List.map_cons, List.nodup_append, List.nodup_cons] at distinct
  obtain ⟨-, -, apart⟩ := distinct
  have shorter := below.length_lt
  rw [split, List.mem_append, List.mem_cons] at searched
  rcases searched with early | rfl | late
  · have noFile := List.find?_eq_none.mp (none e early) _ (List.mem_map_of_mem name)
    exact absurd file noFile
  · omega
  · have newD : Path.components d ∉ before.map Path.components :=
      fun member => apart _ member _ List.mem_cons_self rfl
    have newE : Path.components e ∉ before.map Path.components :=
      fun member => apart _ member _ (List.mem_cons_of_mem _ (List.mem_map_of_mem late)) rfl
    have differ : Path.components d ≠ Path.components e := by
      intro same
      rw [same] at shorter
      omega
    rw [position, position, split, List.map_append, List.map_cons, List.idxOf_append_of_notMem newD,
      List.idxOf_append_of_notMem newE, List.idxOf_cons_self, List.idxOf_cons_ne _ differ]
    omega

/-- A directory comes before one below it if and only if the first operand that is in it is not in
the other. So the search for one operand goes from the nearest directory on, and a file that is found
comes before one in a directory below only if the first operand in its own directory is not in that
one. -/
theorem search_order (t : Tree) (operands : List (List Char)) :
    (∀ d ∈ searchList t operands, ∀ e ∈ searchList t operands, Path.IsBelow e d →
      (position t operands d < position t operands e ↔ MetFirst t operands d e)) ∧
    (∀ a, ∀ d ∈ searchList t [a], ∀ e ∈ searchList t [a], Path.IsBelow e d →
      position t [a] e < position t [a] d) ∧
    ∀ p, discover t operands = some p → ∃ d ∈ searchList t operands,
      p ∈ fileNames.map (Path.join d) ∧ ∀ e ∈ searchList t operands,
        (∃ n ∈ fileNames, t.isFile (Path.join e n) = true) → Path.IsBelow e d →
          MetFirst t operands d e := by
  have order : ∀ d ∈ searchList t operands, ∀ e, Path.IsBelow e d →
      (position t operands d < position t operands e ↔ MetFirst t operands d e) := by
    intro d searched e below
    constructor
    · intro first
      obtain ⟨before, a, after, rfl, earlier, within⟩ := exists_first_isWithin searched
      refine ⟨before, a, after, rfl, earlier, within, fun inside => ?_⟩
      have second := position_lt_of_isWithin earlier within below inside after
      omega
    · rintro ⟨before, a, after, rfl, earlier, within, outside⟩
      exact position_lt_of_not_isWithin earlier within below outside after
  refine ⟨fun d searched e _ => order d searched e, ?_, ?_⟩
  · intro a d searched e searched' below
    obtain ⟨b, operand, within⟩ := (mem_searchList_iff [a] d).mp (List.mem_map_of_mem searched)
    obtain ⟨b', operand', inside⟩ := (mem_searchList_iff [a] e).mp (List.mem_map_of_mem searched')
    rw [List.mem_singleton] at operand operand'
    subst operand operand'
    exact position_lt_of_isWithin (List.forall_mem_nil _) within below inside []
  · intro p found
    obtain ⟨d, searched, place, later⟩ := exists_of_discover found
    exact ⟨d, searched, place, fun e searched' file below =>
      (order d searched e below).mp (later e searched' file below)⟩

/-- Two directories, one in the other, each with a configuration file. -/
def nestedConfigs : Tree :=
  ((Tree.empty []).insert ["x".toList, "sqlshow.toml".toList] (.file [])).insert
    ["x".toList, "y".toList, "sqlshow.toml".toList] (.file [])

/-- The file of the outer directory is found, as an operand in the outer directory comes first. -/
theorem discover_nestedConfigs :
    discover nestedConfigs ["x/a.sql".toList, "x/y/b.sql".toList] = some "x/sqlshow.toml".toList ∧
    searchList nestedConfigs ["x/a.sql".toList, "x/y/b.sql".toList] =
      ["x".toList, [], "x/y".toList] ∧
    Path.IsBelow "x/y".toList "x".toList ∧
    nestedConfigs.isFile "x/y/sqlshow.toml".toList = true := by
  refine ⟨by cbv, by cbv, ⟨["y".toList], by simp, by decide⟩, by cbv⟩

end Config
end TidySql
