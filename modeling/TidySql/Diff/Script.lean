/-! Edit scripts.
A script is a list of pieces of two texts, where a text is a list of lines. Pieces that
are kept belong to both texts, deleted ones to the old text and inserted ones to the
new text. -/
namespace TidySql.Diff

inductive Piece (α : Type) where
  | keep (xs : List α)
  | delete (xs : List α)
  | insert (xs : List α)
  deriving DecidableEq, Repr

namespace Piece
variable {α : Type}

def old : Piece α → List α
  | keep xs | delete xs => xs
  | insert _ => []

def new : Piece α → List α
  | keep xs | insert xs => xs
  | delete _ => []

end Piece

abbrev Script (α : Type) := List (Piece α)

namespace Script
variable {α : Type}

/-- The text that the script starts from. -/
def old (s : Script α) : List α := s.flatMap Piece.old

/-- The text that the script leads to. -/
def new (s : Script α) : List α := s.flatMap Piece.new

def keep (xs : List α) : Script α := if xs.isEmpty then [] else [.keep xs]

def delete (xs : List α) : Script α := if xs.isEmpty then [] else [.delete xs]

def insert (xs : List α) : Script α := if xs.isEmpty then [] else [.insert xs]

@[simp] theorem old_nil : old ([] : Script α) = [] := rfl

@[simp] theorem new_nil : new ([] : Script α) = [] := rfl

@[simp] theorem old_append (s t : Script α) : (s ++ t).old = s.old ++ t.old := List.flatMap_append

@[simp] theorem new_append (s t : Script α) : (s ++ t).new = s.new ++ t.new := List.flatMap_append

@[simp] theorem old_cons (p : Piece α) (s : Script α) : old (p :: s) = p.old ++ s.old :=
  List.flatMap_cons

@[simp] theorem new_cons (p : Piece α) (s : Script α) : new (p :: s) = p.new ++ s.new :=
  List.flatMap_cons

@[simp] theorem old_keep (xs : List α) : (keep xs).old = xs := by
  cases xs <;> simp [keep, old, Piece.old]

@[simp] theorem new_keep (xs : List α) : (keep xs).new = xs := by
  cases xs <;> simp [keep, new, Piece.new]

end Script

variable {α : Type} [DecidableEq α]

def commonStart : List α → List α → List α
  | a :: as, b :: bs => if a = b then a :: commonStart as bs else []
  | _, _ => []

def commonEnd (as bs : List α) : List α := (commonStart as.reverse bs.reverse).reverse

theorem commonStart_append_drop (as bs : List α) :
    commonStart as bs ++ as.drop (commonStart as bs).length = as := by
  fun_induction commonStart as bs with
  | case1 a as bs ih => simpa using ih
  | case2 => rfl
  | case3 => rfl

theorem take_append_commonEnd (as bs : List α) :
    as.take (as.length - (commonEnd as bs).length) ++ commonEnd as bs = as := by
  have h := congrArg List.reverse (commonStart_append_drop as.reverse bs.reverse)
  simp only [List.reverse_append, List.reverse_reverse, List.drop_reverse] at h
  simpa [commonEnd] using h

theorem commonStart_comm (as bs : List α) : commonStart as bs = commonStart bs as := by
  fun_induction commonStart as bs with
  | case1 a as bs ih => simp [commonStart, ih]
  | case2 a as b bs h => simp [commonStart, Ne.symm h]
  | case3 as bs h =>
    cases as with
    | nil => cases bs <;> rfl
    | cons a as =>
      cases bs with
      | nil => rfl
      | cons b bs => exact (h a as b bs rfl rfl).elim

theorem commonEnd_comm (as bs : List α) : commonEnd as bs = commonEnd bs as :=
  congrArg List.reverse (commonStart_comm _ _)

end TidySql.Diff
