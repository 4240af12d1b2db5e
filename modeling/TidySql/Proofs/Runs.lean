import Mathlib
import TidySql.Proofs.Workers

/-! What a run leaves, whichever way it goes.
A run in order is one that a single worker can make, so the invariants of the work hold at
the end of every run. Workers never wait for one another, so every run has an end. -/
namespace TidySql
open Text

namespace Work

variable {m : Mode} {t : Tree} {paths : List (List Char)} {w w' : Work}

theorem countP_isBusy (results : List FileResult) (rest : List (List Char)) :
    (results.map Job.finished ++ rest.map Job.waiting).countP Job.isBusy = 0 := by
  rw [List.countP_eq_zero]
  intro j member
  rcases List.mem_append.mp member with done | waits
  · obtain ⟨r, -, rfl⟩ := List.mem_map.mp done
    exact Bool.false_ne_true
  · obtain ⟨p, -, rfl⟩ := List.mem_map.mp waits
    exact Bool.false_ne_true

theorem steps_formatFile (m : Mode) (s : RunState) (path : List Char) (rest : List (List Char)) :
    Steps m
      ⟨s.tree, s.diffs, s.report.results.map Job.finished ++ .waiting path :: rest.map .waiting⟩
      ⟨(s.formatFile m path).tree, (s.formatFile m path).diffs,
        (s.formatFile m path).report.results.map Job.finished ++ rest.map .waiting⟩ := by
  refine .step (.take ?_) ?_
  · rw [countP_isBusy]
    exact Nat.eq_zero_or_pos m.threads
  simp only [RunState.formatFile, RunState.carryOut, Report.add, List.map_append, List.map_cons,
    List.map_nil, List.append_assoc, List.singleton_append]
  cases writes : (Verdict.of m path (RunState.read s.tree path)).content? with
  | none => exact .step (.leave writes) (.refl _)
  | some content =>
    refine .step (.empty writes) (.step .fill ?_)
    rw [Tree.write_write]
    exact .refl _

theorem steps_foldl (m : Mode) (rest : List (List Char)) (s : RunState) :
    Steps m ⟨s.tree, s.diffs, s.report.results.map Job.finished ++ rest.map .waiting⟩
      ⟨(rest.foldl (RunState.formatFile m) s).tree, (rest.foldl (RunState.formatFile m) s).diffs,
        (rest.foldl (RunState.formatFile m) s).report.results.map Job.finished⟩ := by
  induction rest generalizing s with
  | nil =>
    rw [List.map_nil, List.append_nil]
    exact .refl _
  | cons path rest ih => exact (steps_formatFile m s path rest).trans (ih _)

/-! ### Every run ends -/

/-- How many steps are left for a job, at most. -/
def left (j : Job) : Nat :=
  match j.stage with
  | .waiting => 3
  | .held _ => 2
  | .emptied _ _ => 1
  | .finished _ => 0

def total (w : Work) : Nat := w.jobs.foldr (fun j n => left j + n) 0

theorem total_middle (t : Tree) (d : List Char) (as bs : List Job) (j : Job) :
    total ⟨t, d, as ++ j :: bs⟩ = left j + total ⟨t, d, as ++ bs⟩ := by
  induction as with
  | nil => rfl
  | cons i as ih =>
    simp only [total, List.cons_append, List.foldr_cons] at ih ⊢
    omega

/-- A job that a worker is at goes on, whatever the other workers do. -/
theorem step_of_busy {j : Job} (member : j ∈ w.jobs) (busy : j.isBusy = true) :
    ∃ w', Step m w w' ∧ total w' < total w := by
  obtain ⟨t, d, jobs⟩ := w
  obtain ⟨as, bs, rfl⟩ := List.append_of_mem member
  obtain ⟨path, stage⟩ := j
  cases stage with
  | waiting => cases busy
  | held v =>
    cases writes : v.content? with
    | none =>
      refine ⟨_, .leave writes, ?_⟩
      rw [total_middle, total_middle]
      exact Nat.add_lt_add_right (by simp [left]) _
    | some content =>
      refine ⟨_, .empty writes, ?_⟩
      rw [total_middle, total_middle]
      exact Nat.add_lt_add_right (by simp [left]) _
  | emptied v content =>
    refine ⟨_, .fill, ?_⟩
    rw [total_middle, total_middle]
    exact Nat.add_lt_add_right (by simp [left]) _
  | finished o => cases busy

theorem step_of_waiting {j : Job} (member : j ∈ w.jobs) (waits : j.stage = .waiting)
    (free : ∀ i ∈ w.jobs, i.isBusy = false) : ∃ w', Step m w w' ∧ total w' < total w := by
  obtain ⟨t, d, jobs⟩ := w
  obtain ⟨as, bs, rfl⟩ := List.append_of_mem member
  obtain ⟨path, stage⟩ := j
  obtain rfl : stage = .waiting := waits
  have idle : (as ++ bs).countP Job.isBusy = 0 := by
    rw [List.countP_eq_zero]
    intro i among
    rw [(forall_mem_middle.mp free).2 i among]
    exact Bool.false_ne_true
  refine ⟨_, .take ?_, ?_⟩
  · rw [idle]
    exact Nat.eq_zero_or_pos m.threads
  · rw [total_middle, total_middle]
    exact Nat.add_lt_add_right (by simp [left]) _

theorem eq_map_finished {jobs : List Job} (done : ∀ j ∈ jobs, left j = 0) :
    ∃ rs : List FileResult, jobs = rs.map Job.finished := by
  induction jobs with
  | nil => exact ⟨[], rfl⟩
  | cons j jobs ih =>
    obtain ⟨rs, eq⟩ := ih fun i member => done i (List.mem_cons_of_mem j member)
    have here := done j List.mem_cons_self
    obtain ⟨path, stage⟩ := j
    cases stage with
    | finished o => exact ⟨⟨path, o⟩ :: rs, by rw [eq]; rfl⟩
    | _ => cases here

/-- However far the work is, it can be finished. -/
theorem steps_finished (m : Mode) (w : Work) :
    ∃ (t : Tree) (d : List Char) (rs : List FileResult), Steps m w ⟨t, d, rs.map Job.finished⟩ := by
  induction hn : total w using Nat.strong_induction_on generalizing w with
  | _ n ih =>
    by_cases done : ∀ j ∈ w.jobs, left j = 0
    · obtain ⟨rs, eq⟩ := eq_map_finished done
      exact ⟨w.tree, w.diffs, rs, eq ▸ .refl w⟩
    · have next : ∃ w', Step m w w' ∧ total w' < total w := by
        by_cases busy : ∃ j ∈ w.jobs, j.isBusy = true
        · obtain ⟨j, member, busy⟩ := busy
          exact step_of_busy member busy
        · have free : ∀ i ∈ w.jobs, i.isBusy = false := by
            intro i member
            exact Bool.eq_false_iff.mpr fun h => busy ⟨i, member, h⟩
          simp only [not_forall] at done
          obtain ⟨j, member, unfinished⟩ := done
          refine step_of_waiting member ?_ free
          have idle := free j member
          obtain ⟨path, stage⟩ := j
          cases stage with
          | waiting => rfl
          | held v => cases idle
          | emptied v content => cases idle
          | finished o => exact absurd rfl unfinished
      obtain ⟨w', step, fewer⟩ := next
      obtain ⟨t, d, rs, rest⟩ := ih (total w') (hn ▸ fewer) w' rfl
      exact ⟨t, d, rs, .step step rest⟩

end Work

/-! ### The end of a run -/

section
variable {t : Tree} {m : Mode} {operands : List (List Char)} {s : RunState}

theorem Ends.steps (h : Ends t m operands s) :
    Work.Steps m (.start t (Selection.paths t m operands))
      ⟨s.tree, s.diffs, s.report.results.map Job.finished⟩ := by
  cases h with
  | inOrder => exact Work.steps_foldl m (Selection.paths t m operands) { tree := t }
  | byWorkers allowed several steps => exact steps

theorem Ends.frame (h : Ends t m operands s) : Work.Frame t (Selection.paths t m operands)
    ⟨s.tree, s.diffs, s.report.results.map Job.finished⟩ :=
  h.steps.keeps Work.Step.frame .start

theorem Ends.paths (h : Ends t m operands s) :
    s.report.results.map FileResult.path = Selection.paths t m operands := by
  have jobs := h.frame.jobs
  rw [List.map_map] at jobs
  exact jobs

/-- After a run without errors that writes, every selected file is settled. -/
theorem Ends.settled (h : Ends t m operands s) (writing : m.onlyAsks = false)
    (clean : ∀ r ∈ s.report.results, r.outcome.isFailure = false) :
    ∀ p ∈ Selection.paths t m operands, s.tree.SettledAt m p := by
  have start : Work.Settling m (.start t (Selection.paths t m operands)) := by
    constructor
    · intro j member
      obtain ⟨p, selected, rfl⟩ := List.mem_map.mp member
      exact (t.isFile_iff p).mpr (Selection.leadsToSql_of_mem_paths selected).find?
    · intro j member
      obtain ⟨p, -, rfl⟩ := List.mem_map.mp member
      trivial
  have settling := h.steps.keeps (Work.Step.settling writing) start
  intro p selected
  rw [← h.paths] at selected
  obtain ⟨r, member, rfl⟩ := List.mem_map.mp selected
  rcases settling.jobs _ (List.mem_map_of_mem member) with failure | settled
  · rw [clean r member] at failure
    cases failure
  · exact settled

theorem Ends.fits (h : Ends t m operands s) (apart : t.Apart m (Selection.paths t m operands)) :
    Work.Fits t m (Selection.paths t m operands)
      ⟨s.tree, s.diffs, s.report.results.map Job.finished⟩ :=
  h.steps.keeps (Work.Step.fits apart) .start

theorem Ends.results (h : Ends t m operands s) (apart : t.Apart m (Selection.paths t m operands)) :
    s.report.results =
      (Selection.paths t m operands).map fun p => ⟨p, (t.verdict m p).outcome⟩ := by
  have fits := h.fits apart
  rw [← h.paths, List.map_map]
  refine (List.map_id _).symm.trans (List.map_congr_left ?_)
  intro r member
  have judged := (fits.jobs _ (List.mem_map_of_mem member)).1
  exact congrArg (FileResult.mk r.path) judged

theorem Ends.find? (h : Ends t m operands s) (apart : t.Apart m (Selection.paths t m operands)) :
    ∀ p ∈ Selection.paths t m operands, s.tree.find? p = t.judged m p := by
  intro p selected
  rw [← h.paths] at selected
  obtain ⟨r, member, rfl⟩ := List.mem_map.mp selected
  exact ((h.fits apart).jobs _ (List.mem_map_of_mem member)).2

end

theorem Tree.Apart.of_nodup {t : Tree} {m : Mode} {paths : List (List Char)}
    (distinct : (paths.map t.locate?).Nodup) : t.Apart m paths := by
  rw [List.Nodup, List.pairwise_map] at distinct
  exact distinct.imp fun differ same => absurd same differ

theorem Tree.Apart.of_idle {t : Tree} {m : Mode} {paths : List (List Char)}
    (idle : ∀ p ∈ paths, (t.verdict m p).content? = none) : t.Apart m paths := by
  refine List.pairwise_iff_forall_sublist.mpr ?_
  intro p q pair _
  exact ⟨idle p (pair.subset (by simp)), idle q (pair.subset (by simp))⟩

section
variable {t : Tree} {m : Mode} {operands : List (List Char)} {s : RunState}

/-- A result tells of a file of the first tree, and what stands there afterwards is what was
decided. -/
theorem Ends.file (h : Ends t m operands s) (apart : t.Apart m (Selection.paths t m operands))
    {r : FileResult} (member : r ∈ s.report.results) :
    ∃ l content, t.locate? r.path = some l ∧ t.get? l = some (.file content) ∧
      r.outcome = (Verdict.of m r.path (decode content)).outcome ∧
      s.tree.get? l =
        some (.file ((Verdict.of m r.path (decode content)).content?.getD content)) := by
  have selected : r.path ∈ Selection.paths t m operands := by
    rw [← h.paths]
    exact List.mem_map_of_mem member
  obtain ⟨⟨l, content, place, found⟩, -⟩ := Selection.leadsToSql_of_mem_paths selected
  have here : t.find? r.path = some (.file content) := by rw [Tree.find?, place]; exact found
  have verdict : t.verdict m r.path = .of m r.path (decode content) := by
    rw [Tree.verdict, RunState.read_of_find? here]
  refine ⟨l, content, place, found, ?_, ?_⟩
  · rw [← verdict]
    exact ((h.fits apart).jobs _ (List.mem_map_of_mem member)).1
  · have after := h.find? apart r.path selected
    have place' : s.tree.locate? r.path = some l := (h.frame.locate? r.path).trans place
    rw [Tree.find?, place', Option.bind_some] at after
    rw [after, Tree.judged, verdict, here]
    cases (Verdict.of m r.path (decode content)).content? <;> rfl

/-- What was not changed is as it was, whether it was selected or not. -/
theorem Ends.get?_of_not_changed (h : Ends t m operands s)
    (apart : t.Apart m (Selection.paths t m operands)) {l : Location}
    (kept : ∀ r ∈ s.report.results, r.outcome = .changed → t.locate? r.path ≠ some l) :
    s.tree.get? l = t.get? l := by
  by_cases selected : ∃ p ∈ Selection.paths t m operands, t.locate? p = some l
  · obtain ⟨p, member, place⟩ := selected
    rw [← h.paths] at member
    obtain ⟨r, result, rfl⟩ := List.mem_map.mp member
    obtain ⟨l', content, place', found, outcome, after⟩ := h.file apart result
    obtain rfl : l' = l := Option.some.inj (place'.symm.trans place)
    have idle : (Verdict.of m r.path (decode content)).content? = none := by
      rw [Option.eq_none_iff_forall_ne_some]
      intro new writes
      obtain ⟨-, made, differs⟩ := (Verdict.content?_eq_some_iff m r.path content new).mp writes
      have changed := (Verdict.changed_iff m r.path content).mpr ⟨new, made, differs⟩
      exact kept r result (outcome.trans changed) place
    rw [after, idle, found]
    rfl
  · simp only [not_exists, not_and] at selected
    exact h.frame.get? selected

theorem verdict_of_onlyAsks (asks : m.onlyAsks = true) {p : List Char} (h : t.LeadsToSql p) :
    (t.verdict m p).content? = none := by
  obtain ⟨content, found⟩ := h.find?
  rw [Tree.verdict, RunState.read_of_find? found, Option.eq_none_iff_forall_ne_some]
  intro new writes
  have writing := ((Verdict.content?_eq_some_iff m p content new).mp writes).1
  rw [asks] at writing
  cases writing

theorem Ends.report_congr {m' : Mode} {s' : RunState} (h : Ends t m operands s)
    (h' : Ends t m' operands s') (options : m'.options = m.options)
    (exclude : m'.exclude = m.exclude)
    (distinct : ((Selection.paths t m operands).map t.locate?).Nodup) : s'.report = s.report := by
  have paths : Selection.paths t m' operands = Selection.paths t m operands := by
    rw [Selection.paths, Selection.paths, exclude]
  have results := h.results (.of_nodup distinct)
  have results' := h'.results (.of_nodup (paths ▸ distinct))
  have same : s'.report.results = s.report.results := by
    rw [results, results', paths]
    refine List.map_congr_left ?_
    intro p _
    exact congrArg (FileResult.mk p) (Verdict.outcome_congr options p _)
  exact congrArg Report.mk same

/-- A run over files that are all different. Each gets one result, in the order of their paths:
it fails if it holds no text or the width is out of range, is unchanged if its text is the
formatted one, and is changed else. A changed file gets the formatted text unless the mode
just asks, and nothing else in the tree changes. Which worker takes which file when does not
show, nor does it show in the report whether the mode asks, and no run gets stuck. -/
theorem run_of_distinct_files (t : Tree) (m : Mode) (operands : List (List Char))
    (distinct : ((Selection.paths t m operands).map t.locate?).Nodup) :
    (∀ s, Ends t m operands s →
      s.report.results.map FileResult.path = Selection.paths t m operands ∧
      (∀ r ∈ s.report.results, ∃ l content, t.locate? r.path = some l ∧
        t.get? l = some (.file content) ∧
        (r.outcome.isFailure = true ↔
          decode? content = none ∨ ¬ (1 ≤ m.indentWidth ∧ m.indentWidth ≤ 16)) ∧
        (r.outcome = .unchanged ↔
          ∃ text, decode? content = some text ∧ formatText m text = .ok text) ∧
        (r.outcome = .changed ↔ ∃ text result, decode? content = some text ∧
          formatText m text = .ok result ∧ result ≠ text) ∧
        (r.outcome = .changed → m.check = false → m.diff = false → ∃ text result,
          decode? content = some text ∧ formatText m text = .ok result ∧
          s.tree.get? l = some (.file (encode result)))) ∧
      (m.check = true ∨ m.diff = true → s.tree = t) ∧
      (∀ l, (∀ r ∈ s.report.results, r.outcome = .changed → t.locate? r.path ≠ some l) →
        s.tree.get? l = t.get? l) ∧
      ∀ singleProcess threads check diff s',
        Ends t { m with singleProcess, threads, check, diff } operands s' →
          s'.report = s.report) ∧
    ∀ w, Work.Steps m (.start t (Selection.paths t m operands)) w →
      ∃ (t' : Tree) (d : List Char) (rs : List FileResult),
        Work.Steps m w ⟨t', d, rs.map Job.finished⟩ := by
  have apart : t.Apart m (Selection.paths t m operands) := .of_nodup distinct
  refine ⟨?_, fun w _ => Work.steps_finished m w⟩
  intro s h
  refine ⟨h.paths, ?_, ?_, fun l => h.get?_of_not_changed apart, ?_⟩
  · intro r member
    obtain ⟨l, content, place, found, outcome, after⟩ := h.file apart member
    refine ⟨l, content, place, found, ?_, ?_, ?_, ?_⟩
    · rw [outcome, Verdict.isFailure_iff, Mode.reformat?_eq_none_iff]
    · rw [outcome, Verdict.unchanged_iff, Mode.reformat?_eq_self_iff]
    · rw [outcome, Verdict.changed_iff, Mode.reformat?_differs_iff]
    · intro changed check diff
      rw [outcome, Verdict.changed_iff] at changed
      obtain ⟨new, made, differs⟩ := changed
      have writing : m.onlyAsks = false := by rw [Mode.onlyAsks, check, diff]; rfl
      have writes := (Verdict.content?_eq_some_iff m r.path content new).mpr
        ⟨writing, made, differs⟩
      obtain ⟨text, result, decoded, formatted, rfl⟩ :=
        (m.reformat?_eq_some_iff content new).mp made
      exact ⟨text, result, decoded, formatted, by rw [after, writes]; rfl⟩
  · intro asks
    have asks : m.onlyAsks = true := by simpa [Mode.onlyAsks] using asks
    refine (h.fits apart).idle ?_
    intro p selected
    exact verdict_of_onlyAsks asks (Selection.leadsToSql_of_mem_paths selected)
  · intro singleProcess threads check diff s' h'
    exact h.report_congr h' rfl rfl distinct

/-- A working directory with two files, of which the first is still to be formatted. -/
def Tree.twoFiles : Tree :=
  ((Tree.empty ["w".toList]).insert ["w".toList, "a.sql".toList]
    (.file (encode "select 1".toList))).insert ["w".toList, "b.sql".toList]
    (.file (encode "SELECT 1\n".toList))

theorem run_of_two_files :
    ((Selection.paths .twoFiles {} [".".toList]).map Tree.twoFiles.locate?).Nodup ∧
      ∀ s, Ends .twoFiles {} [".".toList] s →
        s.report.results.map FileResult.path = ["./a.sql".toList, "./b.sql".toList] := by
  have selected : Selection.paths .twoFiles {} [".".toList] =
      ["./a.sql".toList, "./b.sql".toList] := by cbv
  have distinct :
      ((Selection.paths .twoFiles {} [".".toList]).map Tree.twoFiles.locate?).Nodup := by
    rw [selected]
    decide +kernel
  refine ⟨distinct, ?_⟩
  intro s h
  obtain ⟨paths, -⟩ := (run_of_distinct_files .twoFiles {} [".".toList] distinct).1 s h
  exact paths.trans selected

end
end TidySql
