import TidySql.Proofs.Exit
import TidySql.Proofs.Options

/-! A command that is given twice.
A run without errors settles each file that it selects, and no write has a part in which
configuration is found or which files are selected. So a second run meets settled files, and
there is nothing left to be done, whichever files the first one wrote more than once. -/
namespace TidySql
open Text

/-! ### The second run -/

section
variable {t t' : Tree} {m m' : Mode} {operands : List (List Char)} {done done' : RunState}

theorem Tree.SettledAt.verdict {path : List Char} (h : t.SettledAt m path)
    (options : m'.options = m.options) : t.verdict m' path = { outcome := .unchanged } := by
  obtain ⟨content, found, kept⟩ := h
  rw [← Mode.reformat?_congr options] at kept
  rw [Tree.verdict, RunState.read_of_find? found]
  rcases Verdict.of_cases m' path content with ⟨refused, -⟩ | ⟨-, eq⟩ | ⟨new, made, differs, -⟩
  · rw [refused] at kept
    cases kept
  · exact eq
  · exact absurd (Option.some.inj (made.symm.trans kept)) differs

theorem Ends.exists_mapFiles (h : Ends t m operands done) : ∃ f, done.tree = t.mapFiles f := by
  obtain ⟨f, eq, -⟩ := h.frame.contents
  exact ⟨f, eq⟩

theorem Ends.paths_tree (h : Ends t m operands done) (exclude : m'.exclude = m.exclude) :
    Selection.paths done.tree m' operands = Selection.paths t m operands := by
  obtain ⟨f, tree⟩ := h.exists_mapFiles
  rw [tree, Selection.paths_mapFiles, Selection.paths, exclude, Selection.paths]

theorem Config.load_congr {user : Option (List UInt8)} {explicit : Option (List Char)}
    (discovered : discover t' operands = discover t operands)
    (found : ∀ path, (explicit <|> discover t operands) = some path →
      t'.find? path = t.find? path) :
    load t' user operands explicit = load t user operands explicit := by
  unfold load
  rw [discovered]
  cases counts : explicit <|> discover t operands with
  | none => rfl
  | some path => simp only [found path counts]

theorem Ends.load (h : Ends t m operands done) {user : Option (List UInt8)}
    {explicit : Option (List Char)} (apart : ∀ path, explicit = some path →
      ∀ p ∈ Selection.paths t m operands, t.locate? p ≠ t.locate? path) :
    Config.load done.tree user operands explicit = Config.load t user operands explicit := by
  apply Config.load_congr
  · obtain ⟨f, tree⟩ := h.exists_mapFiles
    rw [tree, Config.discover_mapFiles]
  · intro path counts
    -- A file that was found has no SQL extension, and one that was given is not selected.
    have unselected : ∀ p ∈ Selection.paths t m operands, t.locate? p ≠ t.locate? path := by
      cases explicit with
      | some c =>
        cases counts
        exact apart path rfl
      | none =>
        intro p selected
        exact Config.locate?_ne_of_discover counts (Selection.leadsToSql_of_mem_paths selected)
    have place : done.tree.locate? path = t.locate? path := h.frame.locate? path
    rw [Tree.find?, Tree.find?, place]
    cases leads : t.locate? path with
    | none => rfl
    | some l =>
      rw [leads] at unselected
      exact h.frame.get? unselected

/-- A run after one without errors finds every file formatted, and changes nothing. -/
theorem Ends.again (h : Ends t m operands done) (writing : m.onlyAsks = false)
    (clean : ∀ r ∈ done.report.results, r.outcome.isFailure = false)
    (options : m'.options = m.options) (exclude : m'.exclude = m.exclude)
    (second : Ends done.tree m' operands done') : done'.tree = done.tree ∧
      done'.report.results = (Selection.paths done.tree m' operands).map (⟨·, .unchanged⟩) := by
  have unchanged : ∀ p ∈ Selection.paths done.tree m' operands,
      done.tree.verdict m' p = { outcome := .unchanged } := by
    intro p selected
    rw [h.paths_tree exclude] at selected
    exact (h.settled writing clean p selected).verdict options
  have idle : ∀ p ∈ Selection.paths done.tree m' operands,
      (done.tree.verdict m' p).content? = none := by
    intro p selected
    rw [unchanged p selected]
  -- Nothing is written, so the paths may well lead to one file.
  have apart := Tree.Apart.of_idle idle
  constructor
  · exact (second.fits apart).idle idle
  · rw [second.results apart]
    apply List.map_congr_left
    intro p selected
    rw [unchanged p selected]

end

/-! ### The second command -/

/-- The arguments ask for the same layout of the same files. -/
structure Arguments.SameWork (a a' : Arguments) : Prop where
  operands : a'.operands = a.operands
  config : a'.config = a.config
  exclude : a'.exclude = a.exclude
  indentWidth : a'.indentWidth = a.indentWidth
  keywordCase : a'.keywordCase = a.keywordCase

namespace CommandLine

variable {s : Surroundings} {arguments arguments' : List (List Char)} {a a' : Arguments}
  {m : Mode} {e e' : Effect}

theorem code_afterRun_eq_zero {done : RunState} (h : (afterRun s m done).code = 0) :
    ∀ r ∈ done.report.results, r.outcome.isFailure = false := by
  intro r member
  by_contra failure
  have failed := (Report.hasErrors_iff done.report).mpr ⟨r, member, by simpa using failure⟩
  rw [afterRun, failed] at h
  cases h

theorem code_afterRun_of_unchanged {done : RunState}
    (unchanged : ∀ r ∈ done.report.results, r.outcome = .unchanged) :
    (afterRun s m done).code = 0 := by
  have clean : done.report.hasErrors = false := by
    rw [Bool.eq_false_iff, ne_eq, Report.hasErrors_iff]
    rintro ⟨r, member, failure⟩
    rw [unchanged r member] at failure
    cases failure
  have still : done.report.hasChanges = false := by
    rw [Bool.eq_false_iff, ne_eq, Report.hasChanges_iff]
    rintro ⟨r, member, change⟩
    rw [unchanged r member] at change
    cases change
  rw [afterRun, clean, still]
  simp

/-- After a command that wrote without errors, a command with the same work finds every file
formatted. -/
theorem Leaves.again (left : Leaves s arguments e)
    (read : ({} : Arguments).read? arguments = some (.run a)) (files : a.operands ≠ [['-']])
    (writing : a.has .check = false ∧ a.has .diff = false)
    (apart : ∀ path, a.config = some path → ∀ m, resolve s a = .ok m →
      ∀ p ∈ Selection.paths s.tree m a.operands, s.tree.locate? p ≠ s.tree.locate? path)
    (clean : e.code = 0) (same : a.SameWork a')
    (second : Leaves { s with tree := e.tree } arguments' e')
    (read' : ({} : Arguments).read? arguments' = some (.run a')) :
    e'.code = 0 ∧ e'.tree = e.tree ∧ ∃ m done,
      resolve { s with tree := e.tree } a' = .ok m ∧
      e' = afterRun { s with tree := e.tree } m done ∧
      done.report.results = (Selection.paths e.tree m a'.operands).map (⟨·, .unchanged⟩) := by
  cases resolved : resolve s a with
  | error fault =>
    rw [(left.misconfigured read resolved).code] at clean
    cases clean
  | ok m =>
    obtain ⟨configured, loaded, rfl⟩ := resolve_eq_ok_iff.mp resolved
    obtain ⟨done, ends, rfl⟩ := left.files read resolved files
    have writes : (a.toMode configured).onlyAsks = false := by
      change (a.has .check || a.has .diff) = false
      rw [writing.1, writing.2]
      rfl
    have options : (a'.toMode configured).options = (a.toMode configured).options := by
      simp only [Mode.options, Arguments.toMode, same.indentWidth, same.keywordCase]
    have exclude : (a'.toMode configured).exclude = (a.toMode configured).exclude := by
      simp only [Arguments.toMode, same.exclude]
    have resolved' : resolve { s with tree := done.tree } a' = .ok (a'.toMode configured) := by
      refine resolve_eq_ok_iff.mpr ⟨configured, ?_, rfl⟩
      rw [same.operands, same.config, ← loaded]
      exact ends.load fun path explicit => apart path explicit _ resolved
    obtain ⟨done', ends', rfl⟩ := second.files read' resolved' (same.operands ▸ files)
    rw [same.operands] at ends'
    obtain ⟨tree, results⟩ :=
      ends.again writes (code_afterRun_eq_zero clean) options exclude ends'
    refine ⟨code_afterRun_of_unchanged ?_, tree, _, done', resolved', rfl, ?_⟩
    · rw [results]
      intro r member
      obtain ⟨p, -, rfl⟩ := List.mem_map.mp member
      rfl
    · rw [same.operands]
      exact results

/-- The command converges. When it writes the files that it selects and ends without an error,
it has come to the end of its work: with `--check` it now finds every selected file unchanged,
and without it changes nothing. -/
theorem run_converges {o : Arguments} {opts tail files : List (List Char)}
    (options : ({} : Arguments).options? opts = some o)
    (writing : o.has .check = false ∧ o.has .diff = false)
    (operands : Arguments.operands? tail = some files) (named : files ≠ [['-']])
    (apart : ∀ path, o.config = some path →
      ∀ m, resolve s { o with operands := files } = .ok m →
      ∀ p ∈ Selection.paths s.tree m files, s.tree.locate? p ≠ s.tree.locate? path)
    (left : Leaves s (opts ++ tail) e) (clean : e.code = 0) :
    (∀ e', Leaves { s with tree := e.tree } (opts ++ "--check".toList :: tail) e' →
      e'.code = 0 ∧ e'.tree = e.tree ∧ ∃ m done,
        resolve { s with tree := e.tree }
          { o with operands := files, switches := o.switches ++ [.check] } = .ok m ∧
        e' = afterRun { s with tree := e.tree } m done ∧
        done.report.results = (Selection.paths e.tree m files).map (⟨·, .unchanged⟩)) ∧
    ∀ e', Leaves { s with tree := e.tree } (opts ++ tail) e' → e'.tree = e.tree := by
  have read := Arguments.read?_options_operands options operands
  have read' := Arguments.read?_options_check options operands writing.1
  by_cases empty : files.isEmpty = true
  · rw [if_pos empty] at read
    rw [(left.refused read).code] at clean
    cases clean
  · rw [if_neg empty] at read read'
    constructor
    · intro e' second
      exact left.again read named writing apart clean ⟨rfl, rfl, rfl, rfl, rfl⟩ second read'
    · intro e' second
      exact (left.again read named writing apart clean ⟨rfl, rfl, rfl, rfl, rfl⟩ second read).2.1

theorem run_converges_one_file :
    (execute { tree := .twoFiles } ["--fast".toList, "a.sql".toList]).code = 0 ∧
      (execute { tree := (execute { tree := .twoFiles } ["--fast".toList, "a.sql".toList]).tree }
        ["--fast".toList, "--check".toList, "a.sql".toList]).code = 0 := by
  have options : ({} : Arguments).options? ["--fast".toList] = some { switches := [.fast] } := by
    cbv
  have clean : (execute { tree := .twoFiles } ["--fast".toList, "a.sql".toList]).code = 0 := by
    decide +kernel
  refine ⟨clean, ?_⟩
  have operands : Arguments.operands? ["a.sql".toList] = some ["a.sql".toList] := by cbv
  obtain ⟨checked, -⟩ := run_converges options ⟨rfl, rfl⟩ operands (by decide) (by simp)
    (.execute _ _) clean
  exact (checked _ (.execute _ _)).1

end CommandLine
end TidySql
