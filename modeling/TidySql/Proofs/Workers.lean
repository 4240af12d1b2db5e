import TidySql.Proofs.Selected
import TidySql.Proofs.Verdicts
import TidySql.Run.Workers

/-! Runs by several workers, and runs in order as one of them.
Every invariant is kept by each step of a worker and so holds when the run ends. Three are
stated. The tree differs from the first one in the contents of the selected files alone. A
file that was finished without an error is settled, whoever writes it later. And if no two
paths lead to one file that is written, every file is dealt with as on the first tree. -/
namespace TidySql

theorem RunState.read_of_find? {t : Tree} {path : List Char} {content : List UInt8}
    (h : t.find? path = some (.file content)) : read t path = decode content := by
  rw [read, h]

namespace Work

variable {m : Mode} {t : Tree} {paths : List (List Char)} {w w' w'' : Work}

theorem Steps.trans (first : Steps m w w') (rest : Steps m w' w'') : Steps m w w'' := by
  induction first with
  | refl => exact rest
  | step one _ ih => exact .step one (ih rest)

theorem Steps.keeps {I : Work → Prop} (kept : ∀ {w w'}, Step m w w' → I w → I w')
    (steps : Steps m w w') (h : I w) : I w' := by
  induction steps with
  | refl => exact h
  | step one _ ih => exact ih (kept one h)

/-! ### The frame -/

/-- The work is on the selected files of the tree, and no other file has changed. -/
structure Frame (t : Tree) (paths : List (List Char)) (w : Work) : Prop where
  jobs : w.jobs.map Job.path = paths
  contents : ∃ f, w.tree = t.mapFiles f ∧
    ∀ l, (∀ p ∈ paths, t.locate? p ≠ some l) → f l = id

theorem Frame.start : Frame t paths (start t paths) where
  jobs := by simp [Work.start, Job.waiting, Function.comp_def]
  contents := ⟨fun _ => id, (Tree.mapFiles_id t).symm, fun _ _ => rfl⟩

theorem Frame.locate? (frame : Frame t paths w) (p : List Char) :
    w.tree.locate? p = t.locate? p := by
  obtain ⟨f, eq, -⟩ := frame.contents
  rw [eq, Tree.locate?_mapFiles]

theorem Frame.get? (frame : Frame t paths w) {l : Location}
    (unselected : ∀ p ∈ paths, t.locate? p ≠ some l) : w.tree.get? l = t.get? l := by
  obtain ⟨f, eq, kept⟩ := frame.contents
  rw [eq, Tree.get?_mapFiles, kept l unselected]
  cases t.get? l with
  | none => rfl
  | some e => cases e <;> rfl

theorem Frame.write (frame : Frame t paths w) {p : List Char} (member : p ∈ paths)
    (content : List UInt8) : ∃ f, w.tree.write p content = t.mapFiles f ∧
      ∀ l, (∀ p ∈ paths, t.locate? p ≠ some l) → f l = id := by
  obtain ⟨f, eq, kept⟩ := frame.contents
  refine ⟨_, by rw [eq, Tree.write_eq, Tree.mapFiles_mapFiles], ?_⟩
  intro l unselected
  simp only [Tree.locate?_mapFiles, if_neg (unselected p member), kept l unselected]
  rfl

theorem Frame.mem {as bs : List Job} {j : Job} (frame : Frame t paths w)
    (eq : w.jobs = as ++ j :: bs) : j.path ∈ paths := by
  rw [← frame.jobs, eq, List.map_append, List.map_cons]
  exact List.mem_append_right _ List.mem_cons_self

theorem Step.frame (step : Step m w w') (frame : Frame t paths w) : Frame t paths w' := by
  have jobs := frame.jobs
  cases step with
  | take => exact ⟨by simpa using jobs, frame.contents⟩
  | @empty t' d as bs p v content writes =>
    exact ⟨by simpa using jobs, frame.write (frame.mem rfl) []⟩
  | @fill t' d as bs p v content =>
    exact ⟨by simpa using jobs, frame.write (frame.mem rfl) content⟩
  | leave => exact ⟨by simpa using jobs, frame.contents⟩

/-! ### Settled files -/

end Work

/-- The path leads to a file that the mode leaves as it is. -/
def Tree.SettledAt (t : Tree) (m : Mode) (path : List Char) : Prop :=
  ∃ content, t.find? path = some (.file content) ∧ m.reformat? content = some content

/-- Settled content can be written anywhere without harm to files that are settled. -/
theorem Tree.SettledAt.write {t : Tree} {m : Mode} {path : List Char} (h : t.SettledAt m path)
    (other : List Char) {content : List UInt8} (settled : m.reformat? content = some content) :
    (t.write other content).SettledAt m path := by
  obtain ⟨old, found, kept⟩ := h
  by_cases same : t.locate? path = t.locate? other
  · refine ⟨content, ?_, settled⟩
    rw [t.find?_write_of_eq content same, found]
    rfl
  · exact ⟨old, (t.find?_write_of_ne content same).trans found, kept⟩

/-- What a job has come to, in a mode that writes: its file is settled, or will be. -/
def Job.Settles (m : Mode) (t : Tree) (j : Job) : Prop :=
  match j.stage with
  | .waiting => True
  | .held v =>
    (v.content? = none ∧ (v.outcome.isFailure = true ∨ t.SettledAt m j.path)) ∨
      ∃ content, v.content? = some content ∧ m.reformat? content = some content
  | .emptied _ content => m.reformat? content = some content
  | .finished o => o.isFailure = true ∨ t.SettledAt m j.path

theorem Job.Settles.write {m : Mode} {t : Tree} {j : Job} (h : j.Settles m t) (path : List Char)
    {content : List UInt8} (settled : m.reformat? content = some content) :
    j.Settles m (t.write path content) := by
  obtain ⟨p, stage⟩ := j
  cases stage with
  | waiting => trivial
  | held v =>
    rcases h with ⟨idle, failure | kept⟩ | writes
    · exact .inl ⟨idle, .inl failure⟩
    · exact .inl ⟨idle, .inr (kept.write path settled)⟩
    · exact .inr writes
  | emptied v new => exact h
  | finished o =>
    rcases h with failure | kept
    · exact .inl failure
    · exact .inr (kept.write path settled)

namespace Work

variable {m : Mode} {t : Tree} {paths : List (List Char)} {w w' : Work}

theorem forall_mem_middle {as bs : List Job} {j : Job} {P : Job → Prop} :
    (∀ i ∈ as ++ j :: bs, P i) ↔ P j ∧ ∀ i ∈ as ++ bs, P i := by
  simp only [List.mem_append, List.mem_cons]
  constructor
  · intro h
    exact ⟨h j (.inr (.inl rfl)), fun i member => h i (member.imp_right .inr)⟩
  · rintro ⟨here, others⟩ i (before | rfl | after)
    · exact others i (.inl before)
    · exact here
    · exact others i (.inr after)

/-- The work is on files, and each of its jobs settles its file. -/
structure Settling (m : Mode) (w : Work) : Prop where
  files : ∀ j ∈ w.jobs, w.tree.isFile j.path = true
  jobs : ∀ j ∈ w.jobs, j.Settles m w.tree

theorem settles_held (writing : m.onlyAsks = false) {path : List Char}
    (file : t.isFile path = true) :
    (Job.mk path (.held (.of m path (RunState.read t path)))).Settles m t := by
  obtain ⟨content, found⟩ := (t.isFile_iff path).mp file
  rw [RunState.read_of_find? found]
  rcases Verdict.of_cases m path content with ⟨-, message, eq⟩ | ⟨made, eq⟩ |
    ⟨new, made, -, -, eq⟩
  · rw [eq]
    exact .inl ⟨rfl, .inl rfl⟩
  · rw [eq]
    exact .inl ⟨rfl, .inr ⟨content, found, made⟩⟩
  · rw [writing] at eq
    exact .inr ⟨new, eq, Mode.reformat?_settles made⟩

theorem Step.settling (writing : m.onlyAsks = false) (step : Step m w w') (h : Settling m w) :
    Settling m w' := by
  obtain ⟨files, jobs⟩ := h
  cases step with
  | @take t d as bs path free =>
    rw [forall_mem_middle] at files jobs
    refine ⟨forall_mem_middle.mpr files, forall_mem_middle.mpr ⟨?_, jobs.2⟩⟩
    exact settles_held writing files.1
  | @empty t d as bs path v content writes =>
    rw [forall_mem_middle] at files jobs
    have settled : m.reformat? content = some content := by
      rcases jobs.1 with ⟨idle, -⟩ | ⟨new, same, settled⟩
      · rw [idle] at writes
        cases writes
      · obtain rfl : new = content := Option.some.inj (same.symm.trans writes)
        exact settled
    refine ⟨?_, forall_mem_middle.mpr ⟨settled, ?_⟩⟩
    · simp only [Tree.isFile_write]
      exact forall_mem_middle.mpr files
    · intro j member
      exact (jobs.2 j member).write path (Mode.reformat?_nil settled)
  | @fill t d as bs path v content =>
    rw [forall_mem_middle] at files jobs
    have settled : m.reformat? content = some content := jobs.1
    refine ⟨?_, forall_mem_middle.mpr ⟨.inr ?_, ?_⟩⟩
    · simp only [Tree.isFile_write]
      exact forall_mem_middle.mpr files
    · obtain ⟨old, found⟩ := (t.isFile_iff path).mp files.1
      refine ⟨content, ?_, settled⟩
      rw [t.find?_write_of_eq content rfl, found]
      rfl
    · intro j member
      exact (jobs.2 j member).write path settled
  | @leave t d as bs path v idle =>
    rw [forall_mem_middle] at files jobs
    refine ⟨forall_mem_middle.mpr files, forall_mem_middle.mpr ⟨?_, jobs.2⟩⟩
    rcases jobs.1 with ⟨-, result⟩ | ⟨new, writes, -⟩
    · exact result
    · rw [idle] at writes
      cases writes

end Work

/-! ### Files that are dealt with apart -/

/-- What is decided about a file where it stands. -/
def Tree.verdict (t : Tree) (m : Mode) (path : List Char) : Verdict :=
  .of m path (RunState.read t path)

/-- No file that is written stands for two of the paths. -/
def Tree.Apart (t : Tree) (m : Mode) (paths : List (List Char)) : Prop :=
  paths.Pairwise fun p q => t.locate? p = t.locate? q →
    (t.verdict m p).content? = none ∧ (t.verdict m q).content? = none

/-- What stands at the path after the verdict on it has been carried out. -/
def Tree.judged (t : Tree) (m : Mode) (path : List Char) : Option Entry :=
  (t.verdict m path).content?.elim (t.find? path) fun content =>
    (t.find? path).map (Entry.mapContent fun _ => content)

/-- How far a job is, on a tree that was `t` before the run. -/
def Job.Fits (t : Tree) (m : Mode) (now : Tree) (j : Job) : Prop :=
  match j.stage with
  | .waiting => now.find? j.path = t.find? j.path
  | .held v => v = t.verdict m j.path ∧ now.find? j.path = t.find? j.path
  | .emptied v content => v = t.verdict m j.path ∧ v.content? = some content ∧
      now.find? j.path = (t.find? j.path).map (Entry.mapContent fun _ => [])
  | .finished o => o = (t.verdict m j.path).outcome ∧ now.find? j.path = t.judged m j.path

theorem Job.Fits.congr {t now now' : Tree} {m : Mode} {j : Job} (h : j.Fits t m now)
    (same : now'.find? j.path = now.find? j.path) : j.Fits t m now' := by
  unfold Job.Fits at h ⊢
  rw [same]
  exact h

namespace Work

variable {m : Mode} {t : Tree} {paths : List (List Char)} {w w' : Work}

structure Fits (t : Tree) (m : Mode) (paths : List (List Char)) (w : Work) : Prop where
  frame : Frame t paths w
  jobs : ∀ j ∈ w.jobs, j.Fits t m w.tree
  idle : (∀ p ∈ paths, (t.verdict m p).content? = none) → w.tree = t

theorem Fits.start : Fits t m paths (start t paths) where
  frame := .start
  jobs := by
    intro j member
    obtain ⟨p, -, rfl⟩ := List.mem_map.mp member
    rfl
  idle := fun _ => rfl

theorem ne_of_apart (apart : t.Apart m paths) {as bs : List Job} {j : Job}
    (jobs : (as ++ j :: bs).map Job.path = paths) (writes : (t.verdict m j.path).content? ≠ none) :
    ∀ i ∈ as ++ bs, t.locate? i.path ≠ t.locate? j.path := by
  intro i member same
  rw [← jobs, Tree.Apart, List.pairwise_map, List.pairwise_append, List.pairwise_cons] at apart
  obtain ⟨-, ⟨later, -⟩, across⟩ := apart
  rcases List.mem_append.mp member with before | after
  · exact writes (across i before j List.mem_cons_self same).2
  · exact writes (later i after same.symm).1

/-- A write to the file of one job leaves the others where they are. -/
theorem Fits.write_others {t' : Tree} {d : List Char} {as bs : List Job} {j : Job}
    (apart : t.Apart m paths) (fits : Fits t m paths ⟨t', d, as ++ j :: bs⟩)
    (writes : (t.verdict m j.path).content? ≠ none) (content : List UInt8) :
    ∀ i ∈ as ++ bs, i.Fits t m (t'.write j.path content) := by
  intro i member
  have alone := ne_of_apart apart fits.frame.jobs writes i member
  refine ((forall_mem_middle.mp fits.jobs).2 i member).congr ?_
  refine t'.find?_write_of_ne content ?_
  rw [fits.frame.locate?, fits.frame.locate?]
  exact alone

theorem Step.fits (apart : t.Apart m paths) (step : Step m w w') (fits : Fits t m paths w) :
    Fits t m paths w' := by
  have frame := step.frame fits.frame
  cases step with
  | @take t' d as bs path free =>
    obtain ⟨here, others⟩ := forall_mem_middle.mp fits.jobs
    have found : t'.find? path = t.find? path := here
    refine ⟨frame, forall_mem_middle.mpr ⟨⟨?_, found⟩, others⟩, fits.idle⟩
    rw [Tree.verdict, RunState.read, RunState.read, found]
  | @empty t' d as bs path v content writes =>
    obtain ⟨⟨judged, found⟩, -⟩ := forall_mem_middle.mp fits.jobs
    have active : (t.verdict m path).content? ≠ none := by
      rw [← show v = t.verdict m path from judged, writes]
      simp
    refine ⟨frame, forall_mem_middle.mpr ⟨⟨judged, writes, ?_⟩,
      fits.write_others apart active []⟩, ?_⟩
    · rw [t'.find?_write_of_eq [] rfl]
      exact congrArg _ found
    · intro idle
      exact absurd (idle path (fits.frame.mem rfl)) active
  | @fill t' d as bs path v content =>
    obtain ⟨⟨judged, writes, found⟩, -⟩ := forall_mem_middle.mp fits.jobs
    have eq : v = t.verdict m path := judged
    have active : (t.verdict m path).content? ≠ none := by
      rw [← eq, writes]
      simp
    refine ⟨frame, forall_mem_middle.mpr ⟨⟨congrArg _ judged, ?_⟩,
      fits.write_others apart active content⟩, ?_⟩
    · rw [t'.find?_write_of_eq content rfl, Tree.judged, ← eq, writes]
      change Option.map _ (t'.find? path) = Option.map _ (t.find? path)
      rw [show t'.find? path = _ from found, Option.map_map]
      congr 1
      funext e
      cases e <;> rfl
    · intro idle
      exact absurd (idle path (fits.frame.mem rfl)) active
  | @leave t' d as bs path v idle =>
    obtain ⟨⟨judged, found⟩, others⟩ := forall_mem_middle.mp fits.jobs
    have eq : v = t.verdict m path := judged
    refine ⟨frame, forall_mem_middle.mpr ⟨⟨congrArg _ judged, ?_⟩, others⟩, fits.idle⟩
    rw [Tree.judged, ← eq, idle]
    exact found

end Work
end TidySql
