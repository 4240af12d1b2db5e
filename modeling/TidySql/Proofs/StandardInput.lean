import TidySql.Proofs.Exit
import TidySql.Proofs.Options

/-! Standard input and a file of the same content.
The dash that stands for standard input and the name of a file in the working directory start
the search for a configuration in one place, so both are read under the same mode. Then the
text that is printed is the text that is written, and either is refused where the other is. -/
namespace TidySql
open Text

/-! ### Names in the working directory -/

theorem Path.parent?_name {n : List Char} (name : isName n = true) : parent? n = some [] := by
  obtain ⟨nonempty, -, -, plain⟩ := (isName_iff n).mp name
  obtain ⟨c, cs, eq⟩ := List.exists_cons_of_ne_nil (List.reverse_ne_nil_iff.mpr nonempty)
  have others : ∀ d ∈ c :: cs, d ≠ '/' := by
    intro d member slash
    rw [← eq, List.mem_reverse, slash] at member
    exact plain member
  -- There is no slash in a name, so nothing is trimmed from its end and all of it is dropped.
  have trimmed : trimEnding (c :: cs) = c :: cs := by
    unfold trimEnding
    split
    · exact absurd rfl (others '/' (by simp [*]))
    · exact absurd rfl (others '/' (by simp [*]))
    · rfl
  have dropped : (c :: cs).dropWhile (· != '/') = [] := by
    rw [List.dropWhile_eq_nil_iff]
    simpa using others
  rw [parent?, eq, trimmed]
  simp only [if_neg (others c List.mem_cons_self), dropped]
  rfl

theorem Config.directoryOf_name {t : Tree} {n : Name} (name : Path.isName n = true)
    (other : t.isDirectory n = false) : directoryOf t n = ['.'] := by
  rw [directoryOf, other, Path.parent?_name name]
  rfl

theorem Config.discover_name {t : Tree} {n n' : Name} (name : Path.isName n = true)
    (other : t.isDirectory n = false) (name' : Path.isName n' = true)
    (other' : t.isDirectory n' = false) : discover t [n'] = discover t [n] := by
  have places : searchList t [n'] = searchList t [n] := by
    simp only [searchList, List.flatMap_cons, List.flatMap_nil, directoryOf_name name other,
      directoryOf_name name' other']
  rw [discover, discover, places]

section
variable {t : Tree} {f : Name} {content : List UInt8}

theorem Tree.find?_name (file : t.get? (t.cwd ++ [f]) = some (.file content)) :
    t.find? f = some (.file content) := by
  rw [find?, locate?_name (by rw [file]; rfl)]
  exact file

theorem Selection.paths_name (m : Mode) (file : t.get? (t.cwd ++ [f]) = some (.file content))
    (sql : Mode.isSqlPath f = true) : paths t m [f] = [f] := by
  have place : t.locate? f = some (t.cwd ++ [f]) := Tree.locate?_name (by rw [file]; rfl)
  have expanded : Glob.expandOperand t f = [f] := by
    simp [Glob.expandOperand, Tree.contains, Tree.find?_name file]
  have found : ofPath t (Glob.Exclude.compile m.exclude) f = [f] := by
    simp only [ofPath, place, file, sql, if_true]
  simp [paths, expanded, found, dropRepeats]

end

/-! ### One content, printed or written -/

namespace CommandLine

variable {s : Surroundings} {a : Arguments} {m : Mode} {e e' : Effect}

theorem afterRun_name {f : Name} {content : List UInt8} {done : RunState}
    (writing : m.check = false ∧ m.diff = false)
    (file : s.tree.get? (s.tree.cwd ++ [f]) = some (.file content))
    (sql : Mode.isSqlPath f = true) (ends : Ends s.tree m [f] done) :
    (m.reformat? content = none ∧ (afterRun s m done).code = 2 ∧
      (afterRun s m done).tree.get? (s.tree.cwd ++ [f]) = some (.file content)) ∨
    ∃ new, m.reformat? content = some new ∧ (afterRun s m done).code = 0 ∧
      (afterRun s m done).tree.get? (s.tree.cwd ++ [f]) = some (.file new) := by
  have selected := Selection.paths_name m file sql
  have apart : s.tree.Apart m (Selection.paths s.tree m [f]) := by
    rw [selected]
    exact List.pairwise_singleton _ f
  obtain ⟨r, results⟩ : ∃ r, done.report.results = [r] := by
    rw [← List.length_eq_one_iff, ends.results apart, selected]
    rfl
  have named : r.path = f := by
    have paths := ends.paths
    rw [results, selected] at paths
    exact (List.cons.inj paths).1
  obtain ⟨l, old, place, found, outcome, after⟩ :=
    ends.file apart (r := r) (by rw [results]; exact List.mem_singleton_self r)
  rw [named] at place outcome after
  obtain rfl : l = s.tree.cwd ++ [f] := by
    rw [Tree.locate?_name (by rw [file]; rfl)] at place
    exact (Option.some.inj place).symm
  obtain rfl : old = content := by
    rw [file] at found
    cases found
    rfl
  have errors : done.report.hasErrors = true ↔ m.reformat? old = none := by
    rw [Report.hasErrors_iff, results, ← Verdict.isFailure_iff m f, ← outcome]
    simp
  have code : (afterRun s m done).code = if done.report.hasErrors then 2 else 0 := by
    rw [afterRun, writing.1]
    rfl
  cases made : m.reformat? old with
  | none =>
    left
    rw [Verdict.content?_getD_of_refused f made] at after
    refine ⟨rfl, ?_, after⟩
    rw [code, errors.mpr made]
    rfl
  | some new =>
    right
    have writes : m.onlyAsks = false := by rw [Mode.onlyAsks, writing.1, writing.2]; rfl
    rw [Verdict.content?_getD_of_made writes f made] at after
    refine ⟨new, rfl, ?_, after⟩
    have clean : done.report.hasErrors = false := by
      rw [Bool.eq_false_iff, ne_eq, errors, made]
      exact Option.some_ne_none new
    rw [code, clean]
    rfl

/-- A command on standard input and one on a file of the same content agree: what the first
prints is in the file after the second, unless both end in an error and leave all as it is. -/
structure Effect.Agree (s : Surroundings) (f : Name) (e e' : Effect) : Prop where
  code : e'.code = e.code
  tree : e.tree = s.tree
  text : (e.code = 0 ∧ e'.tree.get? (s.tree.cwd ++ [f]) = some (.file (encode e.stdout))) ∨
    (e.code = 2 ∧ e.stdout = [] ∧ e'.tree.get? (s.tree.cwd ++ [f]) = some (.file s.stdin))

variable {f : Name} {other : List UInt8}

theorem Effect.Agree.of_refused (file : s.tree.get? (s.tree.cwd ++ [f]) = some (.file s.stdin))
    (left : Effect.Refused s e) (left' : Effect.Refused { s with stdin := other } e') :
    Effect.Agree s f e e' where
  code := left'.code.trans left.code.symm
  tree := left.tree
  text := .inr ⟨left.code, left.stdout, by rw [left'.tree]; exact file⟩

theorem agree_of_mode {done : RunState} (writing : m.check = false ∧ m.diff = false)
    (file : s.tree.get? (s.tree.cwd ++ [f]) = some (.file s.stdin))
    (sql : Mode.isSqlPath f = true) (ends : Ends s.tree m [f] done) :
    Effect.Agree s f (runStdin s m) (afterRun { s with stdin := other } m done) := by
  have run := afterRun_name (s := { s with stdin := other }) writing file sql ends
  rcases runStdin_cases s m with ⟨unmade, left⟩ | ⟨result, made, eq⟩
  · rcases run with ⟨-, code, after⟩ | ⟨new, made, -⟩
    · exact ⟨code.trans left.code.symm, left.tree, .inr ⟨left.code, left.stdout, after⟩⟩
    · rw [unmade] at made
      cases made
  · rcases run with ⟨unmade, -⟩ | ⟨new, made', code, after⟩
    · rw [unmade] at made
      cases made
    · obtain rfl : new = encode result := Option.some.inj (made'.symm.trans made)
      rw [eq]
      exact ⟨code, rfl, .inl ⟨rfl, after⟩⟩

theorem resolve_name {o : Arguments} {n n' : Name} (name : Path.isName n = true)
    (free : s.tree.isDirectory n = false) (name' : Path.isName n' = true)
    (free' : s.tree.isDirectory n' = false) :
    resolve { s with stdin := other } { o with operands := [n'] } =
      resolve s { o with operands := [n] } := by
  simp only [resolve, Config.load, Config.discover_name name free name' free']
  rfl

theorem isOption_of_head? {text : List Char} (plain : text.head? ≠ some '-') :
    Arguments.isOption text = false := by
  unfold Arguments.isOption
  split
  · exact absurd rfl plain
  · rfl

/-- Standard input is treated like a file of the same content in the working directory: under
the same options the text that is printed is the one that is written, and where one command
ends in an error so does the other. -/
theorem stdin_like_file {opts : List (List Char)}
    (only : ({} : Arguments).onlyOptions opts = true)
    (writing : ∀ o, ({} : Arguments).options? opts = some o →
      o.has .check = false ∧ o.has .diff = false)
    (file : s.tree.get? (s.tree.cwd ++ [f]) = some (.file s.stdin))
    (sql : Mode.isSqlPath f = true) (plain : f.head? ≠ some '-')
    (free : s.tree.isDirectory ['-'] = false)
    (printed : Leaves s (opts ++ [['-']]) e)
    (written : Leaves { s with stdin := other } (opts ++ [f]) e') : Effect.Agree s f e e' := by
  have name : Path.isName f = true := by
    have member := (s.tree.get?_eq_some_iff (by simp) _).mp file
    exact (s.tree.named _ _ member).2 f (by simp)
  have value := isOption_of_head? plain
  rcases Arguments.read?_of_onlyOptions only rfl with ⟨o, options⟩ | spoilt
  · have operands : Arguments.operands? [f] = some [f] := by
      have dashes : f ≠ ['-', '-'] := by
        rintro rfl
        exact plain rfl
      simp [Arguments.operands?, dashes, value, ((Path.isName_iff f).mp name).1]
    have dash : Arguments.operands? [['-']] = some [['-']] := rfl
    have read := Arguments.read?_options_operands options dash
    have read' := Arguments.read?_options_operands options operands
    have occupied : s.tree.isDirectory f = false := by
      rw [Tree.isDirectory, Tree.find?_name file]
      rfl
    have configured : resolve { s with stdin := other } { o with operands := [f] } =
        resolve s { o with operands := [['-']] } := resolve_name (by decide) free name occupied
    cases resolved : resolve s { o with operands := [['-']] } with
    | error fault =>
      exact .of_refused file (printed.misconfigured read resolved)
        (written.misconfigured read' (configured.trans resolved))
    | ok m =>
      have differs : [f] ≠ [['-']] := by
        rintro same
        cases same
        exact plain rfl
      obtain ⟨done, ends, rfl⟩ := written.files read' (configured.trans resolved) differs
      obtain rfl := printed.stdin read resolved rfl
      obtain ⟨base, -, rfl⟩ := resolve_eq_ok_iff.mp resolved
      exact agree_of_mode (writing o options) file sql ends
  · -- The options are at fault, and so is the command line with either operand.
    exact .of_refused file (printed.refused (spoilt ['-'] rfl)) (written.refused (spoilt f value))

def copied : Surroundings where
  tree := .twoFiles
  stdin := encode "select 1".toList

theorem stdin_like_file_copied :
    ({} : Arguments).onlyOptions ["--fast".toList] = true ∧
    copied.tree.get? (copied.tree.cwd ++ ["a.sql".toList]) = some (.file copied.stdin) ∧
    copied.tree.isDirectory ['-'] = false ∧
    Effect.Agree copied "a.sql".toList (execute copied ["--fast".toList, "-".toList])
      (execute { copied with stdin := [] } ["--fast".toList, "a.sql".toList]) := by
  have only : ({} : Arguments).onlyOptions ["--fast".toList] = true := by cbv
  have options : ({} : Arguments).options? ["--fast".toList] = some { switches := [.fast] } := by
    cbv
  have writing : ∀ o, ({} : Arguments).options? ["--fast".toList] = some o →
      o.has .check = false ∧ o.has .diff = false := by
    intro o read
    obtain rfl := Option.some.inj (options.symm.trans read)
    exact ⟨rfl, rfl⟩
  have file : copied.tree.get? (copied.tree.cwd ++ ["a.sql".toList]) =
      some (.file copied.stdin) := by cbv
  have free : copied.tree.isDirectory ['-'] = false := by cbv
  refine ⟨only, file, free, ?_⟩
  exact stdin_like_file only writing file (by cbv) (by decide) free (.execute _ _) (.execute _ _)

end CommandLine
end TidySql
