import TidySql.Run

/-! Runs by several workers.
A worker takes a file that waits, reads it and decides what is to be done, and then does
that. A write empties the file before it fills it. At every moment other workers may read
and write other files, and the results are put in the order of the files. -/
namespace TidySql

inductive Stage where
  | waiting
  | held (v : Verdict)
  | emptied (v : Verdict) (content : List UInt8)
  | finished (o : Outcome)

structure Job where
  path : List Char
  stage : Stage

namespace Job

def waiting (path : List Char) : Job := ⟨path, .waiting⟩

def finished (r : FileResult) : Job := ⟨r.path, .finished r.outcome⟩

/-- A worker is at the job. -/
def isBusy (j : Job) : Bool :=
  match j.stage with
  | .held _ | .emptied _ _ => true
  | _ => false

end Job

/-- How far the work on the files of a run is. -/
structure Work where
  tree : Tree
  diffs : List Char
  jobs : List Job

namespace Work

def start (t : Tree) (paths : List (List Char)) : Work := ⟨t, [], paths.map Job.waiting⟩

/-- What one worker does at a time. -/
inductive Step (m : Mode) : Work → Work → Prop where
  | take {t : Tree} {d : List Char} {as bs : List Job} {path : List Char}
      (free : m.threads = 0 ∨ (as ++ bs).countP Job.isBusy < m.threads) :
      Step m ⟨t, d, as ++ ⟨path, .waiting⟩ :: bs⟩
        ⟨t, d, as ++ ⟨path, .held (.of m path (RunState.read t path))⟩ :: bs⟩
  | empty {t : Tree} {d : List Char} {as bs : List Job} {path : List Char} {v : Verdict}
      {content : List UInt8} (writes : v.content? = some content) :
      Step m ⟨t, d, as ++ ⟨path, .held v⟩ :: bs⟩
        ⟨t.write path [], d, as ++ ⟨path, .emptied v content⟩ :: bs⟩
  | fill {t : Tree} {d : List Char} {as bs : List Job} {path : List Char} {v : Verdict}
      {content : List UInt8} :
      Step m ⟨t, d, as ++ ⟨path, .emptied v content⟩ :: bs⟩
        ⟨t.write path content, d ++ v.diff, as ++ ⟨path, .finished v.outcome⟩ :: bs⟩
  | leave {t : Tree} {d : List Char} {as bs : List Job} {path : List Char} {v : Verdict}
      (idle : v.content? = none) :
      Step m ⟨t, d, as ++ ⟨path, .held v⟩ :: bs⟩
        ⟨t, d ++ v.diff, as ++ ⟨path, .finished v.outcome⟩ :: bs⟩

inductive Steps (m : Mode) : Work → Work → Prop where
  | refl (w : Work) : Steps m w w
  | step {w w' w'' : Work} (first : Step m w w') (rest : Steps m w' w'') : Steps m w w''

end Work

/-- The states in which a run can end. A single file is never given to workers, and
should no workers be had, the files are formatted in order. -/
inductive Ends (t : Tree) (m : Mode) (operands : List (List Char)) : RunState → Prop where
  | inOrder : Ends t m operands (run t m operands)
  | byWorkers {t' : Tree} {d : List Char} {rs : List FileResult}
      (allowed : m.singleProcess = false) (several : 1 < (Selection.paths t m operands).length)
      (steps : Work.Steps m (.start t (Selection.paths t m operands))
        ⟨t', d, rs.map Job.finished⟩) :
      Ends t m operands ⟨t', ⟨rs⟩, d⟩

end TidySql
