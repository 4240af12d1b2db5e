import Mathlib.Data.List.Induction
import TidySql.Proofs.Contents
import TidySql.Proofs.Locations
import TidySql.Proofs.PathOrder

/-! Which files an operand stands for.
The walk of a directory finds a file if and only if some names lead down to it, and
nothing on the way is hidden or excluded. The depth of the tree bounds the number of
these names, so the bound of the walk loses none. -/
namespace TidySql

/-! ### Extensions -/

theorem Path.extension?_eq_some_iff (path e : List Char) : extension? path = some e ↔
    '.' ∉ e ∧ ∃ stem, stem ≠ [] ∧ name? path = some (stem ++ '.' :: e) := by
  cases named : name? path with
  | none => simp [extension?, named]
  | some n =>
    simp only [extension?, named, Option.bind_eq_bind, Option.bind_some, Option.some.injEq]
    constructor
    · intro h
      split at h
      · rename_i d c cs rest
        cases h
        have dot : d = '.' := by
          have head := List.head?_dropWhile_not (· != '.') n.reverse
          rw [rest] at head
          simpa using head
        have cut := List.takeWhile_append_dropWhile (p := (· != '.')) (l := n.reverse)
        rw [rest, dot] at cut
        refine ⟨fun member => ?_, (c :: cs).reverse, by simp, ?_⟩
        · have before := List.all_takeWhile (p := (· != '.')) (l := n.reverse)
          have other := List.all_eq_true.mp before _ (List.mem_reverse.mp member)
          simp at other
        · simpa using (congrArg List.reverse cut).symm
      · cases h
    · rintro ⟨plain, stem, nonempty, rfl⟩
      have others : ∀ c ∈ e.reverse, (c != '.') = true := by
        intro c member
        rw [bne_iff_ne]
        rintro rfl
        exact plain (List.mem_reverse.mp member)
      have reversed : (stem ++ '.' :: e).reverse = e.reverse ++ '.' :: stem.reverse := by simp
      obtain ⟨c, cs, eq⟩ := List.exists_cons_of_ne_nil (by simpa using nonempty : stem.reverse ≠ [])
      rw [reversed, List.dropWhile_append_of_pos others, List.takeWhile_append_of_pos others, eq]
      simp

/-- The last component of the path is a name with an extension of SQL files, in any letter
case. The dot that starts a name starts no extension. -/
def Path.EndsInSql (path : List Char) : Prop :=
  ∃ stem e, stem ≠ [] ∧ name? path = some (stem ++ '.' :: e) ∧ Text.lower e ∈ Mode.extensions

theorem Mode.isSqlPath_iff (path : List Char) : isSqlPath path = true ↔ Path.EndsInSql path := by
  have plain : ∀ e, Text.lower e ∈ extensions → '.' ∉ e := by
    intro e known dot
    have lowered : '.' ∈ Text.lower e := List.mem_map_of_mem (f := Char.toLower) dot
    have without : ∀ e ∈ extensions, '.' ∉ e := by decide
    exact without _ known lowered
  rw [isSqlPath, Option.any_eq_true]
  constructor
  · rintro ⟨e, found, known⟩
    obtain ⟨-, stem, nonempty, name⟩ := (Path.extension?_eq_some_iff path e).mp found
    exact ⟨stem, e, nonempty, name, by simpa using known⟩
  · rintro ⟨stem, e, nonempty, name, known⟩
    exact ⟨e, (Path.extension?_eq_some_iff path e).mpr ⟨plain e known, stem, nonempty, name⟩,
      by simpa using known⟩

/-! ### Locations below a directory -/

namespace Tree
variable {t : Tree}

/-- All that something stands below are directories. -/
theorem get?_lead {l : Location} {names : List Name} {e : Entry}
    (found : t.get? (l ++ names) = some e) (below : names ≠ []) : t.get? l = some .directory := by
  induction names using List.reverseRecOn generalizing e with
  | nil => exact absurd rfl below
  | append_singleton names n ih =>
    rw [← List.append_assoc] at found
    have directory := t.get?_above _ n (by rw [found]; rfl)
    by_cases last : names = []
    · simpa [last] using directory
    · exact ih directory last

theorem length_le_depth {l : Location} {e : Entry} (found : t.get? l = some e) :
    l.length ≤ t.depth := by
  by_cases root : l = []
  · simp [root]
  · have member := (t.get?_eq_some_iff root e).mp found
    have listed := List.mem_map_of_mem (f := fun x : Location × Entry => x.1.length) member
    rw [depth, List.foldl_max]
    exact Nat.le_trans (List.le_max?_getD_of_mem listed) (Nat.le_max_right _ _)

theorem isDirectory_iff (path : List Char) : t.isDirectory path = true ↔
    ∃ l, t.locate? path = some l ∧ t.get? l = some .directory := by
  rw [isDirectory, beq_iff_eq, find?, Option.bind_eq_some_iff]

theorem isFile_iff_locate? (path : List Char) : t.isFile path = true ↔
    ∃ l content, t.locate? path = some l ∧ t.get? l = some (.file content) := by
  simp only [isFile_iff, find?, Option.bind_eq_some_iff]
  exact exists_comm

theorem locate?_foldl_join {path : List Char} {l : Location} {names : List Name} {e : Entry}
    (place : t.locate? path = some l) (found : t.get? (l ++ names) = some e) :
    t.locate? (names.foldl Path.join path) = some (l ++ names) := by
  induction names generalizing path l with
  | nil => simpa using place
  | cons n names ih =>
    have directory := get?_lead found (List.cons_ne_nil n names)
    rw [List.append_cons] at found ⊢
    have stands : (t.get? (l ++ [n])).isSome = true := by
      by_cases last : names = []
      · simpa [last] using Option.isSome_of_eq_some found
      · rw [get?_lead found last]
        rfl
    exact ih (locate?_join place directory stands (isName_of_get? found n (by simp))) found

/-- Names put after the path of a directory lead below it if they go through directories. -/
theorem eq_append_of_through {path : List Char} {l k : Location} {names : List Name}
    (place : t.locate? path = some l) (proper : ∀ n ∈ names, Path.isName n = true)
    (through : ∀ ns, ns <+: names → ns ≠ names → t.isDirectory (ns.foldl Path.join path) = true)
    (last : t.locate? (names.foldl Path.join path) = some k) : k = l ++ names := by
  induction names using List.reverseRecOn generalizing k with
  | nil => simpa using Option.some.inj (last.symm.trans place)
  | append_singleton names n ih =>
    have directory := through names (List.prefix_append names [n]) (by simp)
    obtain ⟨k', place', found⟩ := (t.isDirectory_iff _).mp directory
    obtain rfl : k' = l ++ names := by
      refine ih (fun m member => proper m (List.mem_append_left _ member)) (fun ns lead other => ?_)
        place'
      refine through ns (lead.trans (List.prefix_append names [n])) ?_
      rintro rfl
      exact absurd lead.length_le (by simp)
    have name := proper n (by simp)
    rw [List.foldl_append, List.foldl_cons, List.foldl_nil,
      locate?_join_eq_enter place' name] at last
    obtain ⟨nonempty, notDot, notUp, -⟩ := (Path.isName_iff n).mp name
    obtain ⟨-, ⟨dot, -⟩ | ⟨up, -⟩ | ⟨-, eq, -⟩⟩ := enter_eq_some last
    · exact (dot.elim nonempty notDot).elim
    · exact absurd up notUp
    · rw [eq, List.append_assoc]

end Tree

namespace Selection
open Glob

/-! ### The walk -/

/-- The names lead from the location down to a file, and no part of them is skipped. The
names before them are those that lead to the location from the operand. -/
structure Leads (t : Tree) (excluded : List (List Part)) (l : Location)
    (before names : List Name) : Prop where
  file : ∃ content, t.get? (l ++ names) = some (.file content)
  kept : ∀ ns, ns ≠ [] → ns <+: names → skips excluded (before ++ ns) = false

section
variable {t : Tree} {excluded : List (List Part)} {l : Location} {before : List Name}

theorem leads_cons (n : Name) (names : List Name) : Leads t excluded l before (n :: names) ↔
    skips excluded (before ++ [n]) = false ∧
      Leads t excluded (l ++ [n]) (before ++ [n]) names := by
  constructor
  · rintro ⟨file, kept⟩
    refine ⟨kept [n] (by simp) (by simp), by simpa using file, fun ns nonempty lead => ?_⟩
    simpa using kept (n :: ns) (by simp) (List.cons_prefix_cons.mpr ⟨rfl, lead⟩)
  · rintro ⟨here, file, kept⟩
    refine ⟨by simpa using file, fun ns nonempty lead => ?_⟩
    obtain ⟨k, ns, rfl⟩ := List.exists_cons_of_ne_nil nonempty
    obtain ⟨rfl, below⟩ := List.cons_prefix_cons.mp lead
    by_cases last : ns = []
    · rw [last]
      exact here
    · simpa using kept ns last below

theorem leads_singleton {n : Name} : Leads t excluded l before [n] ↔
    skips excluded (before ++ [n]) = false ∧
      ∃ content, t.get? (l ++ [n]) = some (.file content) := by
  rw [leads_cons]
  refine and_congr_right fun _ => ⟨fun h => by simpa using h.file, fun file => ?_⟩
  exact ⟨by simpa using file, fun ns nonempty lead => absurd (List.prefix_nil.mp lead) nonempty⟩

/-- One step of the walk finds a file of SQL, or it goes into a directory. -/
theorem mem_walk_succ_iff (bound : Nat) (path p : List Char) :
    p ∈ walk t excluded (bound + 1) path l before ↔ ∃ n,
      skips excluded (before ++ [n]) = false ∧
        ((∃ content, t.get? (l ++ [n]) = some (.file content) ∧
            p = Path.join path n ∧ Mode.isSqlPath p = true) ∨
          (t.get? (l ++ [n]) = some .directory ∧
            p ∈ walk t excluded bound (Path.join path n) (l ++ [n]) (before ++ [n]))) := by
  rw [walk, List.mem_flatMap]
  constructor
  · rintro ⟨⟨n, e⟩, child, found⟩
    have stands := (t.mem_children_iff l n e).mp child
    dsimp only at found
    split at found
    · cases found
    · rename_i kept
      refine ⟨n, Bool.not_eq_true _ ▸ kept, ?_⟩
      cases e with
      | directory => exact .inr ⟨stands, found⟩
      | file content =>
        dsimp only at found
        split at found
        · rename_i sql
          obtain rfl := List.mem_singleton.mp found
          exact .inl ⟨content, stands, rfl, sql⟩
        · cases found
  · rintro ⟨n, kept, ⟨content, stands, rfl, sql⟩ | ⟨stands, found⟩⟩
    · refine ⟨(n, .file content), (t.mem_children_iff l n _).mpr stands, ?_⟩
      simp [kept, sql]
    · refine ⟨(n, .directory), (t.mem_children_iff l n _).mpr stands, ?_⟩
      simpa [kept] using found

theorem mem_walk_iff (bound : Nat) (path p : List Char) :
    p ∈ walk t excluded bound path l before ↔ ∃ names, names ≠ [] ∧ names.length ≤ bound ∧
      Leads t excluded l before names ∧ p = names.foldl Path.join path ∧
        Mode.isSqlPath p = true := by
  induction bound generalizing path l before with
  | zero => simp [walk]
  | succ bound ih =>
    rw [mem_walk_succ_iff]
    constructor
    · rintro ⟨n, kept, ⟨content, stands, rfl, sql⟩ | ⟨-, found⟩⟩
      · exact ⟨[n], by simp, by simp, leads_singleton.mpr ⟨kept, content, stands⟩, rfl, sql⟩
      · obtain ⟨names, -, short, leads, rfl, sql⟩ := (ih _).mp found
        exact ⟨n :: names, by simp, Nat.succ_le_succ short,
          (leads_cons n names).mpr ⟨kept, leads⟩, rfl, sql⟩
    · rintro ⟨names, nonempty, short, leads, rfl, sql⟩
      obtain ⟨n, names, rfl⟩ := List.exists_cons_of_ne_nil nonempty
      by_cases last : names = []
      · subst last
        obtain ⟨kept, content, stands⟩ := leads_singleton.mp leads
        exact ⟨n, kept, .inl ⟨content, stands, rfl, sql⟩⟩
      · obtain ⟨kept, leads⟩ := (leads_cons n names).mp leads
        obtain ⟨content, found⟩ := leads.file
        exact ⟨n, kept, .inr ⟨Tree.get?_lead found last,
          (ih _).mpr ⟨names, last, Nat.le_of_succ_le_succ short, leads, rfl, sql⟩⟩⟩

end

/-! ### The operands -/

/-- The names lead from a directory down to a file of SQL. They are names of entries, each
of them of a directory, and none of them is hidden or excluded, by itself or as the last
one of the names up to it. -/
structure Descends (t : Tree) (m : Mode) (directory : List Char) (names : List Name) : Prop where
  nonempty : names ≠ []
  proper : ∀ n ∈ names, Path.isName n = true
  through : ∀ ns, ns <+: names → ns ≠ names →
    t.isDirectory (ns.foldl Path.join directory) = true
  file : t.isFile (names.foldl Path.join directory) = true
  shown : ∀ n ∈ names, n.head? ≠ some '.'
  kept : ∀ ns n, ns ++ [n] <+: names → ∀ pattern ∈ Exclude.compile m.exclude,
    Exclude.accepts pattern n = false ∧
      Exclude.accepts pattern (relativePath (ns ++ [n])) = false
  sql : Path.EndsInSql (names.foldl Path.join directory)

/-- The paths that one operand stands for. -/
inductive Selects (t : Tree) (m : Mode) (operand : List Char) : List Char → Prop where
  | file : t.isFile operand = true → Path.EndsInSql operand → Selects t m operand operand
  | below {names : List Name} : Descends t m operand names →
      Selects t m operand (names.foldl Path.join operand)

section
variable {t : Tree} {m : Mode}

theorem skips_concat (excluded : List (List Part)) (ns : List Name) (n : Name) :
    skips excluded (ns ++ [n]) = false ↔ n.head? ≠ some '.' ∧ ∀ pattern ∈ excluded,
      Exclude.accepts pattern n = false ∧
        Exclude.accepts pattern (relativePath (ns ++ [n])) = false := by
  simp [skips, Exclude.anyAccepts, and_assoc, forall_and]

theorem descends_iff {directory : List Char} {l : Location} {names : List Name}
    (place : t.locate? directory = some l) : Descends t m directory names ↔
      names ≠ [] ∧ Leads t (Exclude.compile m.exclude) l [] names ∧
        Mode.isSqlPath (names.foldl Path.join directory) = true := by
  rw [Mode.isSqlPath_iff]
  constructor
  · intro h
    obtain ⟨k, content, last, file⟩ := (t.isFile_iff_locate? _).mp h.file
    obtain rfl := Tree.eq_append_of_through place h.proper h.through last
    refine ⟨h.nonempty, ⟨⟨content, file⟩, fun ns nonempty lead => ?_⟩, h.sql⟩
    obtain ⟨above, n, rfl⟩ := (List.eq_nil_or_concat ns).resolve_left nonempty
    rw [List.concat_eq_append] at lead ⊢
    exact (skips_concat _ above n).mpr ⟨h.shown n (lead.subset (by simp)), h.kept above n lead⟩
  · rintro ⟨nonempty, ⟨⟨content, file⟩, kept⟩, sql⟩
    have each (above : List Name) (n : Name) (lead : above ++ [n] <+: names) :=
      (skips_concat _ above n).mp (kept (above ++ [n]) (by simp) lead)
    refine ⟨nonempty, fun n member => ?_, fun ns lead other => ?_, ?_, fun n member => ?_,
      fun above n lead => (each above n lead).2, sql⟩
    · exact Tree.isName_of_get? file n (List.mem_append_right _ member)
    · obtain ⟨rest, rfl⟩ := lead
      rw [← List.append_assoc] at file
      have found := Tree.get?_lead file (by simpa using Ne.symm other)
      exact (t.isDirectory_iff _).mpr ⟨_, Tree.locate?_foldl_join place found, found⟩
    · exact (t.isFile_iff_locate? _).mpr ⟨_, content, Tree.locate?_foldl_join place file, file⟩
    · obtain ⟨above, rest, rfl⟩ := List.append_of_mem member
      exact (each above n ⟨rest, by simp⟩).1

theorem mem_ofPath_iff (path p : List Char) :
    p ∈ ofPath t (Exclude.compile m.exclude) path ↔ Selects t m path p := by
  have through : ∀ {names}, Descends t m path names → t.isDirectory path = true :=
    fun h => h.through [] List.nil_prefix (Ne.symm h.nonempty)
  constructor
  · intro h
    unfold ofPath at h
    split at h
    · cases h
    · rename_i l place
      split at h
      · rename_i content found
        split at h
        · rename_i sql
          obtain rfl := List.mem_singleton.mp h
          exact .file ((t.isFile_iff_locate? p).mpr ⟨l, content, place, found⟩)
            ((Mode.isSqlPath_iff p).mp sql)
        · cases h
      · rename_i found
        obtain ⟨names, nonempty, -, leads, rfl, sql⟩ := (mem_walk_iff _ _ _).mp h
        exact .below ((descends_iff place).mpr ⟨nonempty, leads, sql⟩)
      · cases h
  · rintro (⟨file, sql⟩ | @⟨names, h⟩)
    · obtain ⟨l, content, place, found⟩ := (t.isFile_iff_locate? path).mp file
      simp [ofPath, place, found, (Mode.isSqlPath_iff path).mpr sql]
    · obtain ⟨l, place, found⟩ := (t.isDirectory_iff path).mp (through h)
      obtain ⟨nonempty, leads, sql⟩ := (descends_iff place).mp h
      obtain ⟨content, file⟩ := leads.file
      have short := Tree.length_le_depth file
      rw [List.length_append] at short
      simp only [ofPath, place, found]
      exact (mem_walk_iff _ _ _).mpr ⟨names, nonempty, by omega, leads, rfl, sql⟩

theorem expandOperand_of_plain {operand : List Char}
    (plain : t.contains operand = true ∨ ∀ c ∈ operand, c ∉ ['*', '?', '[']) :
    expandOperand t operand = [operand] := by
  rw [expandOperand, if_pos]
  rcases plain with exist | unmarked
  · rw [exist, Bool.true_or]
  · have none : operand.any Wildcard.isMark = false := by
      rw [List.any_eq_false]
      intro c member
      simpa [Wildcard.isMark] using unmarked c member
    rw [none, Bool.not_false, Bool.or_true]

variable {operands : List (List Char)}

theorem selects_of_mem_paths {p : List Char} (h : p ∈ paths t m operands) :
    ∃ a ∈ operands.flatMap (expandOperand t), Selects t m a p := by
  have member := List.mem_mergeSort.mp (mem_of_mem_dropRepeats h)
  obtain ⟨a, operand, found⟩ := List.mem_flatMap.mp member
  exact ⟨a, operand, (mem_ofPath_iff a p).mp found⟩

theorem components_mem_paths {a p : List Char} (operand : a ∈ operands.flatMap (expandOperand t))
    (h : Selects t m a p) : Path.components p ∈ (paths t m operands).map Path.components := by
  rw [paths, mem_components_dropRepeats]
  refine List.mem_map_of_mem (List.mem_mergeSort.mpr ?_)
  exact List.mem_flatMap.mpr ⟨a, operand, (mem_ofPath_iff a p).mpr h⟩

theorem pairwise_paths : ((paths t m operands).map Path.components).Pairwise (· < ·) :=
  pairwise_dropRepeats (Path.pairwise_mergeSort _)

end

/-- A directory in two spellings, with an excluded directory in it, and files by name. -/
example : paths
    (((Tree.empty []).insert ["b".toList, "x.sql".toList] (.file [])).insert
      ["b".toList, "old".toList, "y.sql".toList] (.file []))
    { exclude := ["old".toList] } ["b/old/y.sql".toList, "b".toList, "b/".toList] =
      ["b/old/y.sql".toList, "b/x.sql".toList] := by
  cbv

end Selection
end TidySql
