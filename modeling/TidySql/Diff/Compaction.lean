import TidySql.Diff.Script

/-! Scripts with fewer and longer pieces.
An inserted piece may slide over equal lines beside it, and slides up and then down as
far as it can. Pieces of one kind that come to lie beside each other become one. The
texts of the script stay the same, and these are `old_compact` and `new_compact`. -/
namespace TidySql.Diff

variable {α : Type} [DecidableEq α]

/-- A script around one of its pieces. The pieces before it are given from the nearest
on. -/
structure Focus (α : Type) where
  before : Script α
  piece : Piece α
  after : Script α

namespace Focus

def toScript (f : Focus α) : Script α := f.before.reverse ++ f.piece :: f.after

/-- A kept piece in front of a script, as part of the first piece if that is kept. -/
def keepBefore (xs : List α) : Script α → Script α
  | .keep ys :: s => .keep (xs ++ ys) :: s
  | s => .keep xs :: s

/-- A kept piece at the end of a script that is given from its end. -/
def keepAfter (xs : List α) : Script α → Script α
  | .keep ys :: s => .keep (ys ++ xs) :: s
  | s => .keep xs :: s

/-- One step up: the piece slides over equal lines, changes places with a piece of the
other kind, or joins one of its own kind. -/
def up? (f : Focus α) : Option (Focus α) :=
  match f.before with
  | [] => none
  | p :: before =>
    match p, f.piece with
    | .keep xs, .insert ys =>
      let slid := commonEnd xs ys
      let kept := xs.take (xs.length - slid.length)
      if slid.isEmpty then
        if xs.isEmpty then some { f with before } else none
      else some
        ⟨if kept.isEmpty then before else .keep kept :: before,
          .insert (slid ++ ys.take (ys.length - slid.length)), keepBefore slid f.after⟩
    | .keep xs, _ => if xs.isEmpty then some { f with before } else none
    | .insert xs, .insert ys => some { f with before, piece := .insert (xs ++ ys) }
    | .delete xs, .delete ys => some { f with before, piece := .delete (xs ++ ys) }
    | p, _ => some { f with before, after := p :: f.after }

def down? (f : Focus α) : Option (Focus α) :=
  match f.after with
  | [] => none
  | p :: after =>
    match p, f.piece with
    | .keep xs, .insert ys =>
      let slid := commonStart xs ys
      let kept := xs.drop slid.length
      if slid.isEmpty then
        if xs.isEmpty then some { f with after } else none
      else some
        ⟨keepAfter slid f.before, .insert (ys.drop slid.length ++ slid),
          if kept.isEmpty then after else .keep kept :: after⟩
    | .keep xs, _ => if xs.isEmpty then some { f with after } else none
    | .insert xs, .insert ys => some { f with after, piece := .insert (ys ++ xs) }
    | .delete xs, .delete ys => some { f with after, piece := .delete (ys ++ xs) }
    | p, _ => some { f with before := p :: f.before, after }

/-- Repeats a step for as long as there is one, at most `n` times. -/
def repeated (step : Focus α → Option (Focus α)) : Nat → Focus α → Focus α
  | 0, f => f
  | n + 1, f =>
    match step f with
    | none => f
    | some f => repeated step n f

/-- The number of lines and pieces. Each step passes at least one of them. -/
def size (f : Focus α) : Nat :=
  f.toScript.foldl (fun n p => n + p.old.length + p.new.length + 1) 0

def settle (f : Focus α) : Focus α :=
  let f := repeated up? f.size f
  repeated down? f.size f

def isChange (f : Focus α) : Bool :=
  match f.piece with
  | .keep _ => false
  | _ => true

omit [DecidableEq α] in
theorem old_keepBefore (xs : List α) (s : Script α) :
    Script.old (keepBefore xs s) = xs ++ s.old := by
  unfold keepBefore
  split <;> simp [Piece.old]

omit [DecidableEq α] in
theorem new_keepBefore (xs : List α) (s : Script α) :
    Script.new (keepBefore xs s) = xs ++ s.new := by
  unfold keepBefore
  split <;> simp [Piece.new]

omit [DecidableEq α] in
theorem old_reverse_keepAfter (xs : List α) (s : Script α) :
    Script.old (keepAfter xs s).reverse = Script.old s.reverse ++ xs := by
  unfold keepAfter
  split <;> simp [Piece.old]

omit [DecidableEq α] in
theorem new_reverse_keepAfter (xs : List α) (s : Script α) :
    Script.new (keepAfter xs s).reverse = Script.new s.reverse ++ xs := by
  unfold keepAfter
  split <;> simp [Piece.new]

theorem texts_of_up? {f g : Focus α} (change : f.isChange = true) (h : f.up? = some g) :
    g.isChange = true ∧ g.toScript.old = f.toScript.old ∧ g.toScript.new = f.toScript.new := by
  obtain ⟨before, piece, after⟩ := f
  cases before with
  | nil => simp [up?] at h
  | cons p before =>
    rcases p with xs | xs | xs <;> rcases piece with ys | ys | ys <;>
      simp only [isChange, Bool.false_eq_true, up?] at change h
    case keep.insert =>
      have first := take_append_commonEnd xs ys
      have second := take_append_commonEnd ys xs
      rw [commonEnd_comm] at second
      generalize commonEnd xs ys = slid at *
      generalize xs.take (xs.length - slid.length) = kept at *
      generalize ys.take (ys.length - slid.length) = rest at *
      subst first second
      split at h
      · split at h
        · cases h
          simp_all [isChange, toScript, Piece.old, Piece.new]
        · cases h
      · cases h
        split <;>
          simp_all [isChange, toScript, Piece.old, Piece.new, old_keepBefore, new_keepBefore]
    case keep.delete =>
      split at h
      · cases h
        simp_all [isChange, toScript, Piece.old, Piece.new]
      · cases h
    all_goals
      cases h
      simp [isChange, toScript, Piece.old, Piece.new]

theorem texts_of_down? {f g : Focus α} (change : f.isChange = true) (h : f.down? = some g) :
    g.isChange = true ∧ g.toScript.old = f.toScript.old ∧ g.toScript.new = f.toScript.new := by
  obtain ⟨before, piece, after⟩ := f
  cases after with
  | nil => simp [down?] at h
  | cons p after =>
    rcases p with xs | xs | xs <;> rcases piece with ys | ys | ys <;>
      simp only [isChange, Bool.false_eq_true, down?] at change h
    case keep.insert =>
      have first := commonStart_append_drop xs ys
      have second := commonStart_append_drop ys xs
      rw [commonStart_comm] at second
      generalize commonStart xs ys = slid at *
      generalize xs.drop slid.length = kept at *
      generalize ys.drop slid.length = rest at *
      subst first second
      split at h
      · split at h
        · cases h
          simp_all [isChange, toScript, Piece.old, Piece.new]
        · cases h
      · cases h
        split <;>
          simp_all [isChange, toScript, Piece.old, Piece.new, old_reverse_keepAfter,
            new_reverse_keepAfter]
    case keep.delete =>
      split at h
      · cases h
        simp_all [isChange, toScript, Piece.old, Piece.new]
      · cases h
    all_goals
      cases h
      simp [isChange, toScript, Piece.old, Piece.new]

omit [DecidableEq α] in
theorem texts_of_repeated {step : Focus α → Option (Focus α)}
    (texts : ∀ {f g : Focus α}, f.isChange = true → step f = some g →
      g.isChange = true ∧ g.toScript.old = f.toScript.old ∧ g.toScript.new = f.toScript.new)
    (n : Nat) (f : Focus α) (change : f.isChange = true) :
    (repeated step n f).isChange = true ∧ (repeated step n f).toScript.old = f.toScript.old ∧
      (repeated step n f).toScript.new = f.toScript.new := by
  induction n generalizing f with
  | zero => exact ⟨change, rfl, rfl⟩
  | succ n ih =>
    rw [repeated]
    split
    · exact ⟨change, rfl, rfl⟩
    · rename_i g h
      obtain ⟨change', old, new⟩ := texts change h
      obtain ⟨change'', old', new'⟩ := ih g change'
      exact ⟨change'', old'.trans old, new'.trans new⟩

theorem texts_of_settle (f : Focus α) (change : f.isChange = true) :
    f.settle.toScript.old = f.toScript.old ∧ f.settle.toScript.new = f.toScript.new := by
  obtain ⟨change', old, new⟩ := texts_of_repeated texts_of_up? f.size f change
  obtain ⟨_, old', new'⟩ := texts_of_repeated texts_of_down? _ _ change'
  exact ⟨old'.trans old, new'.trans new⟩

end Focus

/-- Settles the pieces that are chosen, from the first to the last. -/
def settleAll (chosen : Piece α → Bool) : Nat → Script α → Script α → Script α
  | 0, before, after => before.reverse ++ after
  | _ + 1, before, [] => before.reverse
  | n + 1, before, p :: after =>
    let f : Focus α := ⟨before, p, after⟩
    let f := if chosen p then f.settle else f
    settleAll chosen n (f.piece :: f.before) f.after

def Piece.isDelete : Piece α → Bool
  | .delete _ => true
  | _ => false

def Piece.isInsert : Piece α → Bool
  | .insert _ => true
  | _ => false

/-- Settles deleted pieces and then inserted ones. Settling a piece puts at most one
more behind it, which is passed without a further step. -/
def compact (s : Script α) : Script α :=
  let bound := 2 * (s.length + s.old.length + s.new.length) + 2
  let s := settleAll Piece.isDelete bound [] s
  settleAll Piece.isInsert bound [] s

theorem texts_of_settleAll (chosen : Piece α → Bool) (kept : ∀ xs, chosen (.keep xs) = false)
    (n : Nat) (before after : Script α) :
    (settleAll chosen n before after).old = Script.old (before.reverse ++ after) ∧
      (settleAll chosen n before after).new = Script.new (before.reverse ++ after) := by
  fun_induction settleAll chosen n before after with
  | case1 => exact ⟨rfl, rfl⟩
  | case2 => simp
  | case3 n before p after f g ih =>
    have same : g.toScript.old = f.toScript.old ∧ g.toScript.new = f.toScript.new := by
      by_cases h : chosen p = true
      · rw [show g = f.settle from if_pos h]
        refine f.texts_of_settle ?_
        rcases p with xs | xs | xs
        · rw [kept] at h; cases h
        · rfl
        · rfl
      · rw [show g = f from if_neg h]
        exact ⟨rfl, rfl⟩
    simp only [Focus.toScript] at same
    rw [ih.1, ih.2]
    simpa using same

theorem old_compact (s : Script α) : (compact s).old = s.old := by
  rw [compact, (texts_of_settleAll _ (fun _ => rfl) _ _ _).1]
  simpa using (texts_of_settleAll Piece.isDelete (fun _ => rfl) _ [] s).1

theorem new_compact (s : Script α) : (compact s).new = s.new := by
  rw [compact, (texts_of_settleAll _ (fun _ => rfl) _ _ _).2]
  simpa using (texts_of_settleAll Piece.isDelete (fun _ => rfl) _ [] s).2

end TidySql.Diff
