import TidySql.Proofs.Walk

/-! The selected paths.
Each of them leads to a file, and its name has an extension of SQL files. So a
configuration file is never among them. -/
namespace TidySql

/-- The path leads to a file that counts as an SQL file. -/
def Tree.LeadsToSql (t : Tree) (path : List Char) : Prop :=
  (∃ l content, t.locate? path = some l ∧ t.get? l = some (.file content)) ∧
    Mode.isSqlPath path = true

namespace Selection

theorem Selects.leadsToSql {t : Tree} {m : Mode} {operand p : List Char}
    (h : Selects t m operand p) : t.LeadsToSql p := by
  rcases h with ⟨file, sql⟩ | @⟨names, h⟩
  · exact ⟨(t.isFile_iff_locate? _).mp file, (Mode.isSqlPath_iff _).mpr sql⟩
  · exact ⟨(t.isFile_iff_locate? _).mp h.file, (Mode.isSqlPath_iff _).mpr h.sql⟩

theorem leadsToSql_of_mem_paths {t : Tree} {m : Mode} {operands : List (List Char)} {p : List Char}
    (h : p ∈ paths t m operands) : t.LeadsToSql p := by
  obtain ⟨_, -, selects⟩ := selects_of_mem_paths h
  exact selects.leadsToSql

end Selection

theorem Tree.LeadsToSql.find? {t : Tree} {path : List Char} (h : t.LeadsToSql path) :
    ∃ content, t.find? path = some (.file content) := by
  obtain ⟨⟨l, content, place, found⟩, -⟩ := h
  refine ⟨content, ?_⟩
  rw [Tree.find?, place]
  exact found

namespace Config

theorem isName_of_mem_fileNames : ∀ n ∈ fileNames, Path.isName n = true := by decide

theorem not_isSqlPath_of_mem_fileNames : ∀ n ∈ fileNames, Mode.isSqlPath n = false := by
  decide +kernel

/-- No selected path leads to the configuration file that is found. -/
theorem locate?_ne_of_discover {t : Tree} {operands : List (List Char)} {path p : List Char}
    (found : discover t operands = some path) (sql : t.LeadsToSql p) :
    t.locate? p ≠ t.locate? path := by
  obtain ⟨directory, -, h⟩ := List.exists_of_findSome?_eq_some found
  obtain ⟨n, name, rfl⟩ := List.mem_map.mp (List.mem_of_find?_eq_some h)
  obtain ⟨⟨l, content, place, file⟩, extension⟩ := sql
  intro same
  -- Both paths end in the name of the one file, and its extension cannot be both.
  have proper := isName_of_mem_fileNames n name
  obtain ⟨above, k, rfl, last, proper'⟩ := Tree.locate?_file place file
  obtain ⟨above', k', eq, last', -⟩ := Tree.locate?_file (same ▸ place) file
  obtain rfl : k' = n := by
    rw [Path.getLast?_pieces_join directory proper] at last'
    exact (Option.some.inj last').symm
  obtain rfl : k = k' := by simpa using congrArg List.getLast? eq
  rw [Mode.isSqlPath_eq last proper, not_isSqlPath_of_mem_fileNames k name] at extension
  cases extension

end Config
end TidySql
