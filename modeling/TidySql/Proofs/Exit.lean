import TidySql.CommandLine.Outcomes
import TidySql.Proofs.Runs

/-! The exit code of the command.
A command line that is not understood and a configuration at fault end the command before it
looks at any input. Else the code tells of the contents that the command is asked about, on
standard input or in the selected files. -/
namespace TidySql
open Text

namespace Report

theorem hasErrors_iff (r : Report) :
    r.hasErrors = true ↔ ∃ f ∈ r.results, f.outcome.isFailure = true := by
  rw [hasErrors, decide_eq_true_iff, errors, List.countP_pos_iff]

theorem hasChanges_iff (r : Report) :
    r.hasChanges = true ↔ ∃ f ∈ r.results, f.outcome = .changed := by
  rw [hasChanges, decide_eq_true_iff, changed, List.countP_pos_iff]
  simp

end Report

/-- Content that the mode makes no text from. -/
def Mode.Refuses (m : Mode) (content : List UInt8) : Prop :=
  decode? content = none ∨ ¬ (1 ≤ m.indentWidth ∧ m.indentWidth ≤ 16)

/-- Content whose text is not the formatted one. -/
def Mode.Alters (m : Mode) (content : List UInt8) : Prop :=
  ∃ text result, decode? content = some text ∧ formatText m text = .ok result ∧ result ≠ text

def Tree.content? (t : Tree) (path : List Char) : Option (List UInt8) :=
  match t.find? path with
  | some (.file content) => some content
  | _ => none

namespace CommandLine

variable {s : Surroundings} {arguments : List (List Char)} {a : Arguments} {m : Mode} {e : Effect}

/-- The command ends in an error, and has printed and changed nothing. -/
structure Effect.Refused (s : Surroundings) (e : Effect) : Prop where
  code : e.code = 2
  stdout : e.stdout = []
  tree : e.tree = s.tree

theorem resolve_eq_ok_iff : resolve s a = .ok m ↔ ∃ configured,
    Config.load s.tree s.userConfig a.operands a.config = .ok configured ∧
      a.toMode configured = m := by
  unfold resolve
  cases Config.load s.tree s.userConfig a.operands a.config with
  | error fault => simp [Except.map]
  | ok configured => simp [Except.map]

theorem Leaves.execute (s : Surroundings) (arguments : List (List Char)) :
    Leaves s arguments (execute s arguments) :=
  ⟨run s.tree, fun _ _ => .inOrder, rfl⟩

theorem Leaves.refused (left : Leaves s arguments e)
    (unread : ({} : Arguments).read? arguments = none) : Effect.Refused s e := by
  obtain ⟨runFiles, -, rfl⟩ := left
  rw [executeBy, unread]
  exact ⟨rfl, rfl, rfl⟩

theorem Leaves.request (left : Leaves s arguments e)
    (read : ({} : Arguments).read? arguments = some (.run a)) :
    ∃ runFiles, (∀ m operands, Ends s.tree m operands (runFiles m operands)) ∧
      e = CommandLine.request runFiles s a := by
  obtain ⟨runFiles, ends, rfl⟩ := left
  refine ⟨runFiles, ends, ?_⟩
  rw [executeBy, read]

theorem Leaves.misconfigured (left : Leaves s arguments e)
    (read : ({} : Arguments).read? arguments = some (.run a)) {fault : Error}
    (resolved : resolve s a = .error fault) : Effect.Refused s e := by
  obtain ⟨runFiles, -, rfl⟩ := left.request read
  rw [CommandLine.request, resolved]
  exact ⟨rfl, rfl, rfl⟩

theorem Leaves.files (left : Leaves s arguments e)
    (read : ({} : Arguments).read? arguments = some (.run a)) (resolved : resolve s a = .ok m)
    (files : a.operands ≠ [['-']]) :
    ∃ done, Ends s.tree m a.operands done ∧ e = afterRun s m done := by
  obtain ⟨runFiles, ends, rfl⟩ := left.request read
  refine ⟨runFiles m a.operands, ends m a.operands, ?_⟩
  simp only [CommandLine.request, resolved, if_neg files]

theorem Leaves.stdin (left : Leaves s arguments e)
    (read : ({} : Arguments).read? arguments = some (.run a)) (resolved : resolve s a = .ok m)
    (stdin : a.operands = [['-']]) : e = runStdin s m := by
  obtain ⟨runFiles, -, rfl⟩ := left.request read
  simp only [CommandLine.request, resolved, if_pos stdin]

/-- Standard input is refused, or its formatted text is printed. -/
theorem runStdin_cases (s : Surroundings) (m : Mode) :
    (m.reformat? s.stdin = none ∧ Effect.Refused s (runStdin s m)) ∨
      ∃ result, m.reformat? s.stdin = some (encode result) ∧
        runStdin s m = { code := 0, stdout := result, tree := s.tree } := by
  cases decoded : decode? s.stdin with
  | none =>
    left
    refine ⟨(m.reformat?_eq_none_iff _).mpr (.inl decoded), ?_⟩
    rw [runStdin, decode, decoded]
    exact ⟨rfl, rfl, rfl⟩
  | some text =>
    have source : decode s.stdin = .ok text := by rw [decode, decoded]
    rw [runStdin, source]
    cases formatted : formatText m text with
    | error fault =>
      left
      refine ⟨?_, ?_⟩
      · simp only [Mode.reformat?, decoded, formatted]
      · simp only [formatted]
        exact ⟨rfl, rfl, rfl⟩
    | ok result =>
      right
      refine ⟨result, ?_, ?_⟩
      · simp only [Mode.reformat?, decoded, formatted]
      · simp only [formatted]

/-! ### The code of a check -/

/-- The contents that a command is asked about. -/
def inputs (s : Surroundings) (m : Mode) (operands : List (List Char)) : List (List UInt8) :=
  if operands = [['-']] then [s.stdin]
  else (Selection.paths s.tree m operands).filterMap s.tree.content?

theorem exists_result_iff {operands : List (List Char)} {done : RunState} {P : Outcome → Prop}
    {Q : List UInt8 → Prop} (asks : m.onlyAsks = true) (files : operands ≠ [['-']])
    (h : Ends s.tree m operands done)
    (same : ∀ p content, P (Verdict.of m p (decode content)).outcome ↔ Q content) :
    (∃ r ∈ done.report.results, P r.outcome) ↔ ∃ content ∈ inputs s m operands, Q content := by
  have apart : s.tree.Apart m (Selection.paths s.tree m operands) := by
    apply Tree.Apart.of_idle
    intro p selected
    exact verdict_of_onlyAsks asks (Selection.leadsToSql_of_mem_paths selected)
  rw [h.results apart, inputs, if_neg files]
  constructor
  · rintro ⟨r, member, holds⟩
    obtain ⟨p, selected, rfl⟩ := List.mem_map.mp member
    obtain ⟨content, found⟩ := (Selection.leadsToSql_of_mem_paths selected).find?
    rw [Tree.verdict, RunState.read_of_find? found, same] at holds
    refine ⟨content, List.mem_filterMap.mpr ⟨p, selected, ?_⟩, holds⟩
    rw [Tree.content?, found]
  · rintro ⟨content, member, holds⟩
    obtain ⟨p, selected, stands⟩ := List.mem_filterMap.mp member
    refine ⟨_, List.mem_map_of_mem selected, ?_⟩
    have found : s.tree.find? p = some (.file content) := by
      unfold Tree.content? at stands
      split at stands
      · rename_i found
        rw [found, Option.some.inj stands]
      · cases stands
    rw [Tree.verdict, RunState.read_of_find? found, same]
    exact holds

theorem code_runStdin (s : Surroundings) (m : Mode) :
    ((runStdin s m).code = 2 ∧ m.Refuses s.stdin) ∨
      ((runStdin s m).code = 0 ∧ ¬ m.Refuses s.stdin) := by
  rw [Mode.Refuses, ← Mode.reformat?_eq_none_iff]
  rcases runStdin_cases s m with ⟨made, refused⟩ | ⟨result, made, eq⟩
  · exact .inl ⟨refused.code, made⟩
  · refine .inr ⟨by rw [eq], ?_⟩
    rw [made]
    exact Option.some_ne_none _

theorem hasErrors_iff_refuses {operands : List (List Char)} {done : RunState}
    (asks : m.onlyAsks = true) (files : operands ≠ [['-']]) (h : Ends s.tree m operands done) :
    done.report.hasErrors = true ↔ ∃ content ∈ inputs s m operands, m.Refuses content := by
  rw [Report.hasErrors_iff]
  refine exists_result_iff (P := fun o => o.isFailure = true) asks files h ?_
  intro p content
  rw [Verdict.isFailure_iff, Mode.reformat?_eq_none_iff, Mode.Refuses]

theorem hasChanges_iff_alters {operands : List (List Char)} {done : RunState}
    (asks : m.onlyAsks = true) (files : operands ≠ [['-']]) (h : Ends s.tree m operands done) :
    done.report.hasChanges = true ↔ ∃ content ∈ inputs s m operands, m.Alters content := by
  rw [Report.hasChanges_iff]
  refine exists_result_iff (P := fun o => o = .changed) asks files h ?_
  intro p content
  rw [Verdict.changed_iff, Mode.reformat?_differs_iff, Mode.Alters]

/-- With `--check` the command ends in an error exactly if the configuration is at fault or some
input cannot be formatted. Else the code is 1 exactly if the text of some selected file differs
from its formatted text. For standard input the code is 0 whether its text differs or not. -/
theorem code_of_check (read : ({} : Arguments).read? arguments = some (.run a))
    (check : a.has .check = true) (left : Leaves s arguments e) :
    (∀ fault, resolve s a = .error fault → e.code = 2) ∧
    ∀ m, resolve s a = .ok m →
      (e.code = 2 ↔ ∃ content ∈ inputs s m a.operands, m.Refuses content) ∧
      (e.code = 1 ↔ a.operands ≠ [['-']] ∧
        (¬ ∃ content ∈ inputs s m a.operands, m.Refuses content) ∧
        ∃ content ∈ inputs s m a.operands, m.Alters content) ∧
      (e.code = 0 ↔ (¬ ∃ content ∈ inputs s m a.operands, m.Refuses content) ∧
        (a.operands ≠ [['-']] → ¬ ∃ content ∈ inputs s m a.operands, m.Alters content)) := by
  refine ⟨fun fault faulty => (left.misconfigured read faulty).code, ?_⟩
  intro m resolved
  by_cases stdin : a.operands = [['-']]
  · have input : (∃ content ∈ inputs s m a.operands, m.Refuses content) ↔ m.Refuses s.stdin := by
      rw [inputs, if_pos stdin]
      simp
    rw [left.stdin read resolved stdin, input]
    rcases code_runStdin s m with ⟨code, refuses⟩ | ⟨code, accepts⟩
    · simp [code, refuses]
    · simp [code, accepts, stdin]
  · have checks : m.check = true := by
      obtain ⟨configured, -, rfl⟩ := resolve_eq_ok_iff.mp resolved
      exact check
    have asks : m.onlyAsks = true := by rw [Mode.onlyAsks, checks]; rfl
    obtain ⟨done, ends, rfl⟩ := left.files read resolved stdin
    rw [← hasErrors_iff_refuses asks stdin ends, ← hasChanges_iff_alters asks stdin ends, afterRun,
      checks]
    cases done.report.hasErrors with
    | true => simp
    | false =>
      cases done.report.hasChanges with
      | true => simp [stdin]
      | false => simp [stdin]

theorem alters_select : Mode.Alters { check := true } (encode "select 1".toList) := by
  refine ⟨"select 1".toList, "SELECT 1\n".toList, decode?_encode _, ?_, by decide⟩
  exact (formatText_eq_ok_iff _ _ _).mpr ⟨by decide, by decide +kernel⟩

theorem code_of_check_two_files :
    ({} : Arguments).read? ["--check".toList, ".".toList] =
      some (.run { operands := [".".toList], switches := [.check] }) ∧
    (execute { tree := .twoFiles } ["--check".toList, ".".toList]).code = 1 := by
  have read : ({} : Arguments).read? ["--check".toList, ".".toList] =
      some (.run { operands := [".".toList], switches := [.check] }) := by cbv
  have resolved : resolve { tree := .twoFiles } { operands := [".".toList], switches := [.check] } =
      .ok { check := true } := by cbv
  have contents : inputs { tree := .twoFiles } { check := true } [".".toList] =
      [encode "select 1".toList, encode "SELECT 1\n".toList] := by cbv
  obtain ⟨-, codes⟩ := code_of_check read rfl (.execute _ _)
  obtain ⟨-, one, -⟩ := codes _ resolved
  refine ⟨read, one.mpr ?_⟩
  rw [contents]
  refine ⟨by decide, ?_, encode "select 1".toList, by simp, ?_⟩
  · have decoded : ∀ content ∈ [encode "select 1".toList, encode "SELECT 1\n".toList],
        decode? content ≠ none := by decide +kernel
    rintro ⟨content, member, undecoded | width⟩
    · exact decoded content member undecoded
    · exact width (by decide)
  · exact alters_select

/-- A text on standard input that is still to be formatted, and no file. -/
def typed : Surroundings where
  tree := .empty []
  stdin := encode "select 1".toList

/-- On standard input text that is still to be formatted passes the check. -/
theorem code_of_check_stdin :
    ({} : Arguments).read? ["--check".toList, "-".toList] =
      some (.run { operands := [['-']], switches := [.check] }) ∧
    resolve typed { operands := [['-']], switches := [.check] } = .ok { check := true } ∧
    (∃ content ∈ inputs typed { check := true } [['-']], Mode.Alters { check := true } content) ∧
    (execute typed ["--check".toList, "-".toList]).code = 0 := by
  refine ⟨by cbv, by cbv, ⟨typed.stdin, ?_, alters_select⟩, ?_⟩
  · rw [inputs, if_pos rfl]
    exact List.mem_singleton_self typed.stdin
  · decide +kernel

end CommandLine
end TidySql
