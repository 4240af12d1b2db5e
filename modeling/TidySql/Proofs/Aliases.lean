import TidySql.Proofs.Components
import TidySql.Proofs.Runs

/-! Files that are selected under two paths.
In a tree without links a path leads where its components say. So a file is selected twice only
if one operand leads to where another one does, or below it, and is not spelled as that one with
the names between them after it. Operands that start alike and never go up do not do that, and a
run over them deals with each file once. -/
namespace TidySql

/-! ### Where components lead -/

/-- The location one component further on. -/
def Component.move (l : Location) : Component → Location
  | root => []
  | here => l
  | up => l.dropLast
  | name n => l ++ [n]

/-- The location that a path names, whether anything stands there or not. -/
def Path.place (cwd : Location) (path : List Char) : Location :=
  (components path).foldl Component.move cwd

theorem Component.foldl_move_name (ns : List Name) (l : Location) :
    (ns.map Component.name).foldl move l = l ++ ns := by
  induction ns generalizing l with
  | nil => simp
  | cons n ns ih =>
    rw [List.map_cons, List.foldl_cons, ih, move, List.append_assoc]
    rfl

/-- Where a path never goes up, its components after the start are names. -/
theorem Path.exists_inner_eq_of_up_not_mem {path : List Char} (straight : .up ∉ components path) :
    ∃ names : List Name, inner path = names.map .name := by
  rw [components_eq, List.mem_append, not_or] at straight
  refine ⟨(pieces path).filter fun p => p ≠ [] ∧ p ≠ ['.'], List.map_congr_left ?_⟩
  intro piece member
  refine if_neg fun up => straight.2 ?_
  rw [inner, List.mem_map]
  exact ⟨piece, member, if_pos up⟩

namespace Tree
variable {t : Tree}

theorem foldlM_enter_eq_some {ps : List (List Char)} {k l : Location}
    (found : ps.foldlM t.enter k = some l) :
    l = ((ps.filter fun p => p ≠ [] ∧ p ≠ ['.']).map Component.ofPiece).foldl Component.move k := by
  induction ps generalizing k with
  | nil => simpa using found.symm
  | cons p ps ih =>
    rw [List.foldlM_cons] at found
    obtain ⟨k', step, rest⟩ := Option.bind_eq_some_iff.mp found
    rw [ih rest]
    obtain ⟨-, ⟨stays, rfl⟩ | ⟨rfl, rfl⟩ | ⟨name, rfl, -⟩⟩ := enter_eq_some step
    · rw [List.filter_cons_of_neg (by simpa [imp_iff_not_or] using stays)]
    · rfl
    · obtain ⟨nonempty, notDot, notUp, -⟩ := (Path.isName_iff p).mp name
      rw [List.filter_cons_of_pos (by simp [nonempty, notDot]), List.map_cons, List.foldl_cons,
        Component.ofPiece, if_neg notUp]
      rfl

/-- A path leads to the place that it names, or nowhere. -/
theorem eq_place_of_locate? {path : List Char} {l : Location} (found : t.locate? path = some l) :
    l = Path.place t.cwd path := by
  rw [locate?_eq t (ne_nil_of_locate? found)] at found
  rw [foldlM_enter_eq_some found, Path.place, Path.components_eq, List.foldl_append, Path.lead]
  by_cases absolute : Path.isAbsolute path = true
  · rw [if_pos absolute, if_pos absolute]
    rfl
  · -- A dot at the start is a component of its own, which leads nowhere else.
    rw [if_neg absolute, if_neg absolute]
    split <;> rfl

/-- The second path leads to where the first one does, or below it, but it is not spelled as the
first one with the names between them after it. -/
def Respells (t : Tree) (a b : List Char) : Prop :=
  ∃ l names, t.locate? a = some l ∧ t.locate? b = some (l ++ names) ∧
    Path.components b ≠ Path.components a ++ names.map .name

theorem not_respells_self (t : Tree) (a : List Char) : ¬ t.Respells a a := by
  rintro ⟨l, names, place, below, differ⟩
  obtain rfl : names = [] := by
    rw [place, Option.some.injEq] at below
    simpa using below
  exact differ (List.append_nil _).symm

/-- Paths that start alike and never go up are spelled by the names down to where they lead. -/
theorem not_respells_of_lead_eq {a b : List Char} (straightA : .up ∉ Path.components a)
    (straightB : .up ∉ Path.components b) (alike : Path.lead a = Path.lead b) :
    ¬ t.Respells a b := by
  rintro ⟨l, names, placeA, placeB, differ⟩
  obtain ⟨as, innerA⟩ := Path.exists_inner_eq_of_up_not_mem straightA
  obtain ⟨bs, innerB⟩ := Path.exists_inner_eq_of_up_not_mem straightB
  have whereA := eq_place_of_locate? placeA
  have whereB := eq_place_of_locate? placeB
  rw [Path.place, Path.components_eq, List.foldl_append, innerA,
    Component.foldl_move_name] at whereA
  rw [Path.place, Path.components_eq, List.foldl_append, innerB, Component.foldl_move_name, ← alike,
    whereA, List.append_assoc, List.append_cancel_left_eq] at whereB
  rw [Path.components_eq, Path.components_eq, innerA, innerB, ← whereB, alike, List.map_append,
    List.append_assoc] at differ
  exact differ rfl

end Tree

namespace Path

theorem join_ne_nil (path : List Char) {n : List Char} (name : isName n = true) :
    join path n ≠ [] := by
  have nonempty := ((isName_iff n).mp name).1
  rcases join_cases path n with ⟨-, eq⟩ | ⟨_, -, eq⟩ | ⟨-, eq⟩ <;> simp [eq, nonempty]

theorem components_foldl_join {path : List Char} {names : List Name} (nonempty : path ≠ [])
    (proper : ∀ n ∈ names, isName n = true) :
    components (names.foldl join path) = components path ++ names.map .name := by
  induction names generalizing path with
  | nil => simp
  | cons n names ih =>
    obtain ⟨here, below⟩ := List.forall_mem_cons.mp proper
    rw [List.foldl_cons, ih (join_ne_nil path here) below, components_join nonempty here,
      List.map_cons, List.append_assoc, List.singleton_append]

end Path

namespace Selection
open Glob

/-- Two of the selected paths lead to one file. -/
def Twice (t : Tree) (m : Mode) (operands : List (List Char)) : Prop :=
  ∃ p ∈ paths t m operands, ∃ q ∈ paths t m operands, p ≠ q ∧ t.locate? p = t.locate? q

section
variable {t : Tree} {m : Mode}

/-- What an operand stands for is spelled as the operand with the names down to it. -/
theorem Selects.exists_names {a p : List Char} (h : Selects t m a p) : ∃ l names,
    t.locate? a = some l ∧ t.locate? p = some (l ++ names) ∧
      Path.components p = Path.components a ++ names.map .name := by
  rcases h with ⟨file, -⟩ | @⟨names, h⟩
  · obtain ⟨l, -, place, -⟩ := (t.isFile_iff_locate? a).mp file
    exact ⟨l, [], place, by simpa using place, by simp⟩
  · obtain ⟨l, place, -⟩ := (t.isDirectory_iff a).mp (h.through [] List.nil_prefix h.nonempty.symm)
    obtain ⟨-, leads, -⟩ := (descends_iff place).mp h
    obtain ⟨content, found⟩ := leads.file
    exact ⟨l, names, place, Tree.locate?_foldl_join place found,
      Path.components_foldl_join (Tree.ne_nil_of_locate? place) h.proper⟩

variable {a b p q : List Char}

/-- Of two operands that stand for one file, one leads to where the other does, or below it. -/
theorem respells_or_respells (first : Selects t m a p) (second : Selects t m b q)
    (same : t.locate? p = t.locate? q) (differ : Path.components p ≠ Path.components q) :
    t.Respells a b ∨ t.Respells b a := by
  obtain ⟨l, ns, placeA, placeP, spellP⟩ := first.exists_names
  obtain ⟨k, ms, placeB, placeQ, spellQ⟩ := second.exists_names
  rw [placeP, placeQ, Option.some.injEq] at same
  -- Both operands are on the one way down to the file, so one of them comes first on it.
  rcases List.append_eq_append_iff.mp same with ⟨between, rfl, rfl⟩ | ⟨between, rfl, rfl⟩
  · refine .inl ⟨l, between, placeA, placeB, fun eq => differ ?_⟩
    rw [spellP, spellQ, eq, List.map_append, List.append_assoc]
  · refine .inr ⟨k, between, placeB, placeA, fun eq => differ ?_⟩
    rw [spellP, spellQ, eq, List.map_append, List.append_assoc]

theorem components_ne_of_respells (respells : t.Respells a b) (first : Selects t m a p)
    (second : Selects t m b q) (same : t.locate? p = t.locate? q) :
    Path.components p ≠ Path.components q := by
  obtain ⟨l, between, placeA, placeB, differ⟩ := respells
  obtain ⟨l', ns, placeA', placeP, spellP⟩ := first.exists_names
  obtain ⟨k, ms, placeB', placeQ, spellQ⟩ := second.exists_names
  obtain rfl := Option.some.inj (placeA.symm.trans placeA')
  obtain rfl := Option.some.inj (placeB.symm.trans placeB')
  rw [placeP, placeQ, Option.some.injEq, List.append_assoc, List.append_cancel_left_eq] at same
  rw [spellP, spellQ, same, List.map_append, ← List.append_assoc]
  exact fun eq => differ (List.append_cancel_right eq).symm

variable {operands : List (List Char)}

theorem eq_of_components_eq (first : p ∈ paths t m operands) (second : q ∈ paths t m operands)
    (same : Path.components p = Path.components q) : p = q :=
  List.inj_on_of_nodup_map (pairwise_paths.imp ne_of_lt) first second same

/-- Spellings of one path lead to one place, if they lead anywhere. -/
theorem locate?_eq_of_components_eq {l k : Location} (first : t.locate? p = some l)
    (second : t.locate? q = some k) (same : Path.components p = Path.components q) :
    t.locate? p = t.locate? q := by
  rw [first, second, Tree.eq_place_of_locate? first, Tree.eq_place_of_locate? second, Path.place,
    Path.place, same]

/-- What an operand stands for is selected, in one of its spellings. -/
theorem exists_mem_paths (operand : a ∈ operands.flatMap (expandOperand t))
    (h : Selects t m a p) : ∃ p' ∈ paths t m operands,
      Path.components p' = Path.components p ∧ t.locate? p' = t.locate? p := by
  obtain ⟨p', selected, spelled⟩ := List.mem_map.mp (components_mem_paths operand h)
  obtain ⟨⟨l, -, place, -⟩, -⟩ := leadsToSql_of_mem_paths selected
  obtain ⟨⟨k, -, place', -⟩, -⟩ := h.leadsToSql
  exact ⟨p', selected, spelled, locate?_eq_of_components_eq place place' spelled⟩

theorem twice_iff : Twice t m operands ↔
    ∃ a ∈ operands.flatMap (expandOperand t), ∃ b ∈ operands.flatMap (expandOperand t),
      t.Respells a b ∧ ∃ p q, Selects t m a p ∧ Selects t m b q ∧ t.locate? p = t.locate? q := by
  constructor
  · rintro ⟨p, selectedP, q, selectedQ, differ, same⟩
    obtain ⟨a, operandA, first⟩ := selects_of_mem_paths selectedP
    obtain ⟨b, operandB, second⟩ := selects_of_mem_paths selectedQ
    have apart := fun eq => differ (eq_of_components_eq selectedP selectedQ eq)
    rcases respells_or_respells first second same apart with respells | respells
    · exact ⟨a, operandA, b, operandB, respells, p, q, first, second, same⟩
    · exact ⟨b, operandB, a, operandA, respells, q, p, second, first, same.symm⟩
  · rintro ⟨a, operandA, b, operandB, respells, p, q, first, second, same⟩
    have apart := components_ne_of_respells respells first second same
    obtain ⟨p', selectedP, spelledP, placeP⟩ := exists_mem_paths operandA first
    obtain ⟨q', selectedQ, spelledQ, placeQ⟩ := exists_mem_paths operandB second
    refine ⟨p', selectedP, q', selectedQ, ?_, placeP.trans (same.trans placeQ.symm)⟩
    rintro rfl
    exact apart (spelledP.symm.trans spelledQ)

theorem nodup_locate?_of_not_twice (once : ¬ Twice t m operands) :
    ((paths t m operands).map t.locate?).Nodup := by
  have distinct : ((paths t m operands).map Path.components).Nodup := pairwise_paths.imp ne_of_lt
  refine List.Nodup.map_on ?_ distinct.of_map
  intro p selectedP q selectedQ same
  by_contra differ
  exact once ⟨p, selectedP, q, selectedQ, differ, same⟩

/-- Operands that start alike and never go up select each file once. A single one does so anyway. -/
theorem not_twice_of_lead_eq
    (alike : ∀ a ∈ operands.flatMap (expandOperand t), ∀ b ∈ operands.flatMap (expandOperand t),
      a ≠ b → .up ∉ Path.components a ∧ Path.lead a = Path.lead b) :
    ¬ Twice t m operands := by
  rw [twice_iff]
  rintro ⟨a, operandA, b, operandB, respells, -⟩
  by_cases same : a = b
  · exact t.not_respells_self a (same ▸ respells)
  · obtain ⟨straightA, leads⟩ := alike a operandA b operandB same
    obtain ⟨straightB, -⟩ := alike b operandB a operandA (Ne.symm same)
    exact Tree.not_respells_of_lead_eq straightA straightB leads respells

/-- No two workers have the same file at any moment. -/
theorem nodup_jobs_of_not_twice (once : ¬ Twice t m operands) {w : Work}
    (steps : Work.Steps m (.start t (paths t m operands)) w) :
    (w.jobs.map fun j => w.tree.locate? j.path).Nodup := by
  have frame := steps.keeps Work.Step.frame .start
  have eq : (w.jobs.map fun j => w.tree.locate? j.path) = (paths t m operands).map t.locate? := by
    rw [← frame.jobs, List.map_map]
    exact List.map_congr_left fun j _ => frame.locate? j.path
  rw [eq]
  exact nodup_locate?_of_not_twice once

end

/-- Some file is selected twice if and only if two operands stand for it, and one of them leads to
where the other does, or below it, in another spelling. Operands that start alike and never go up
select each file once, and so does a single one. Then no two workers ever have one file, and a run
has one result for each file, which follows from the content before the run, as does the content
after it. -/
theorem each_file_once (t : Tree) (m : Mode) (operands : List (List Char)) :
    (Twice t m operands ↔
      ∃ a ∈ operands.flatMap (expandOperand t), ∃ b ∈ operands.flatMap (expandOperand t),
        t.Respells a b ∧
          ∃ p q, Selects t m a p ∧ Selects t m b q ∧ t.locate? p = t.locate? q) ∧
    ((∀ a ∈ operands.flatMap (expandOperand t), ∀ b ∈ operands.flatMap (expandOperand t),
      a ≠ b → .up ∉ Path.components a ∧ Path.lead a = Path.lead b) → ¬ Twice t m operands) ∧
    (¬ Twice t m operands →
      (∀ w, Work.Steps m (.start t (paths t m operands)) w →
        (w.jobs.map fun j => w.tree.locate? j.path).Nodup) ∧
      ∀ s, Ends t m operands s →
        s.report.results.map FileResult.path = paths t m operands ∧
        (s.report.results.map fun r => t.locate? r.path).Nodup ∧
        ∀ r ∈ s.report.results, ∃ l content, t.locate? r.path = some l ∧
          t.get? l = some (.file content) ∧
          r.outcome = (Verdict.of m r.path (decode content)).outcome ∧
          s.tree.get? l = some
            (.file ((Verdict.of m r.path (decode content)).content?.getD content))) := by
  refine ⟨twice_iff, not_twice_of_lead_eq, fun once => ⟨?_, ?_⟩⟩
  · exact fun w => nodup_jobs_of_not_twice once
  · intro s h
    have distinct := nodup_locate?_of_not_twice once
    refine ⟨h.paths, ?_, fun r => h.file (.of_nodup distinct)⟩
    rw [← h.paths, List.map_map] at distinct
    exact distinct

/-- A directory and a file in it, given by its name. The file is selected under both spellings. -/
theorem twice_dot : Twice .twoFiles {} [".".toList, "a.sql".toList] ∧
    ∀ s, Ends .twoFiles {} [".".toList, "a.sql".toList] s →
      s.report.results.map FileResult.path =
        ["./a.sql".toList, "./b.sql".toList, "a.sql".toList] := by
  have selected : paths .twoFiles {} [".".toList, "a.sql".toList] =
      ["./a.sql".toList, "./b.sql".toList, "a.sql".toList] := by cbv
  refine ⟨⟨"./a.sql".toList, ?_, "a.sql".toList, ?_, by decide, by decide +kernel⟩, ?_⟩
  · rw [selected]
    decide
  · rw [selected]
    decide
  · exact fun s h => h.paths.trans selected

end Selection
end TidySql
