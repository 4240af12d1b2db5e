import Mathlib.Data.List.TakeWhile
import TidySql.Token.Lexer

/-! Cuts of the scan under a change of what follows.
A cut that ends before the end of the text has seen its own end, and takes the same
characters whatever follows, as long as the next character cannot extend it. A cut
takes the whole of any beginning of what it took. -/
namespace TidySql.Lexer

theorem head?_dropWhile (p : Char → Bool) (cs : List Char) :
    ∀ d ∈ (cs.dropWhile p).head?, p d = false := by
  intro d first
  have h := List.head?_dropWhile_not p cs
  rw [Option.mem_def.mp first] at h
  exact h

theorem span_exact (p : Char → Bool) (cs rest : List Char) (inside : ∀ c ∈ cs, p c = true)
    (stop : ∀ d ∈ rest.head?, p d = false) :
    (cs ++ rest).takeWhile p = cs ∧ (cs ++ rest).dropWhile p = rest := by
  rw [List.takeWhile_append_of_pos inside, List.dropWhile_append_of_pos inside]
  cases rest with
  | nil => simp
  | cons d rest => simp [stop d rfl]

theorem cutQuoted_cons (q c : Char) (cs : List Char) (plain : c ≠ '\\') (inside : c ≠ q) :
    cutQuoted q (c :: cs) = (c :: (cutQuoted q cs).1, (cutQuoted q cs).2) := by
  cases cs <;> simp [cutQuoted, plain, inside]

theorem cutQuoted_of_beginning (q : Char) (cs a b : List Char) (taken : (cutQuoted q cs).1 = a ++ b) :
    cutQuoted q a = (a, []) := by
  fun_induction cutQuoted q cs generalizing a with
  | case1 =>
    obtain ⟨rfl, -⟩ := List.append_eq_nil_iff.mp taken.symm
    rfl
  | case2 c | case4 c =>
    rcases List.singleton_eq_append_iff.mp taken with ⟨rfl, -⟩ | ⟨rfl, -⟩ <;> rfl
  | case3 c d cs paired s ih =>
    rcases a with _ | ⟨c', _ | ⟨d', a⟩⟩
    · rfl
    · rfl
    · obtain ⟨rfl, rfl, tail⟩ : c = c' ∧ d = d' ∧ s.1 = a ++ b := by simpa using taken
      simp [cutQuoted, paired, ih a tail]
  | case5 c d cs unpaired inside s ih =>
    cases a with
    | nil => rfl
    | cons c' a =>
      obtain ⟨rfl, tail⟩ : c = c' ∧ s.1 = a ++ b := by simpa using taken
      rw [cutQuoted_cons q c a (fun h => unpaired (.inl h)) inside, ih a tail]

/-- A quoted text that does not run to the end is closed. Only its own quote could
extend it. -/
theorem cutQuoted_of_closed (q : Char) (cs rest : List Char) (closed : (cutQuoted q cs).2 ≠ [])
    (apart : rest.head? ≠ some q) :
    cutQuoted q ((cutQuoted q cs).1 ++ rest) = ((cutQuoted q cs).1, rest) := by
  fun_induction cutQuoted q cs with
  | case1 => exact absurd rfl closed
  | case2 => exact absurd rfl closed
  | case3 c d cs paired s ih => simp [cutQuoted, paired, s, ih closed]
  | case4 d cs unpaired =>
    cases rest with
    | nil => rfl
    | cons e rest =>
      have plain : q ≠ '\\' := fun h => unpaired (.inl h)
      have different : e ≠ q := by simpa using apart
      simp [cutQuoted, plain, different]
  | case5 c d cs unpaired inside s ih =>
    rw [List.cons_append, cutQuoted_cons q c _ (fun h => unpaired (.inl h)) inside, ih closed]

theorem cutQuoted_append_of_closed {q e : Char} {cs r rest : List Char}
    (body : cutQuoted q (cs ++ e :: r) = (cs, e :: r)) (apart : rest.head? ≠ some q) :
    cutQuoted q (cs ++ rest) = (cs, rest) := by
  have same := cutQuoted_of_closed q (cs ++ e :: r) rest (by simp [body]) apart
  rw [body] at same
  exact same

theorem getLast?_cutQuoted (q : Char) (cs : List Char) (closed : (cutQuoted q cs).2 ≠ []) :
    (cutQuoted q cs).1.getLast? = some q := by
  fun_induction cutQuoted q cs with
  | case1 => exact absurd rfl closed
  | case2 => exact absurd rfl closed
  | case3 c d cs _ s ih => simp [List.getLast?_cons, ih closed, s]
  | case4 => rfl
  | case5 c d cs _ _ s ih => simp [List.getLast?_cons, ih closed, s]

/-- The quote that closes a text is not the first of a doubled one. -/
theorem head?_rest_cutQuoted (q : Char) (cs : List Char) : (cutQuoted q cs).2.head? ≠ some q := by
  fun_induction cutQuoted q cs with
  | case1 => simp
  | case2 => simp
  | case3 c d cs _ s ih => exact ih
  | case4 d cs unpaired =>
    intro doubled
    exact unpaired (.inr ⟨rfl, Option.some.inj doubled⟩)
  | case5 c d cs _ _ s ih => exact ih

/-- One more character, unless it is the quote itself, leaves a closed text as it is and
becomes part of an open one. -/
theorem cutQuoted_concat (q e : Char) (cs : List Char) (other : e ≠ q)
    (whole : cutQuoted q cs = (cs, [])) :
    cutQuoted q (cs ++ [e]) = (cs, [e]) ∨ cutQuoted q (cs ++ [e]) = (cs ++ [e], []) := by
  fun_induction cutQuoted q cs with
  | case1 => exact .inr rfl
  | case2 c =>
    by_cases escape : c = '\\'
    · exact .inr (by simp [cutQuoted, escape])
    · by_cases closes : c = q
      · subst closes
        exact .inl (by simp [cutQuoted, escape, other])
      · exact .inr (by simp [cutQuoted, escape, closes])
  | case3 c d cs paired s ih =>
    have inner : s = (cs, []) := by simpa [Prod.ext_iff] using whole
    rcases ih inner with tail | tail
    · exact .inl (by simp [cutQuoted, paired, tail])
    · exact .inr (by simp [cutQuoted, paired, tail])
  | case4 => simp at whole
  | case5 c d cs unpaired inside s ih =>
    have inner : s = (d :: cs, []) := by simpa [Prod.ext_iff] using whole
    have plain : c ≠ '\\' := fun h => unpaired (.inl h)
    rcases ih inner with tail | tail
    · exact .inl (by rw [List.cons_append, cutQuoted_cons q c _ plain inside, tail])
    · exact .inr (by rw [List.cons_append, cutQuoted_cons q c _ plain inside, tail])

theorem cutBlock_cons (c : Char) (cs : List Char) (inside : ¬ (c = '*' ∧ cs.head? = some '/')) :
    cutBlock (c :: cs) = (c :: (cutBlock cs).1, (cutBlock cs).2) := by
  cases cs with
  | nil => rfl
  | cons d cs =>
    have different : ¬ (c = '*' ∧ d = '/') := by simpa using inside
    simp [cutBlock, different]

theorem head?_cutBlock (cs : List Char) : (cutBlock cs).1.head? = cs.head? := by
  fun_cases cutBlock cs <;> rfl

theorem cutBlock_of_beginning (cs a b : List Char) (taken : (cutBlock cs).1 = a ++ b) :
    cutBlock a = (a, []) := by
  fun_induction cutBlock cs generalizing a with
  | case1 =>
    obtain ⟨rfl, -⟩ := List.append_eq_nil_iff.mp taken.symm
    rfl
  | case2 c =>
    rcases List.singleton_eq_append_iff.mp taken with ⟨rfl, -⟩ | ⟨rfl, -⟩ <;> rfl
  | case3 c d cs ends =>
    rcases a with _ | ⟨c', _ | ⟨d', a⟩⟩
    · rfl
    · rfl
    · obtain ⟨rfl, rfl, rfl, -⟩ : c = c' ∧ d = d' ∧ a = [] ∧ b = [] := by simpa using taken
      simp [cutBlock, ends]
  | case4 c d cs goes s ih =>
    cases a with
    | nil => rfl
    | cons c' a =>
      obtain ⟨rfl, tail⟩ : c = c' ∧ s.1 = a ++ b := by simpa using taken
      -- A star that does not close the comment is not followed by a slash in a beginning of it.
      have inside : ¬ (c = '*' ∧ a.head? = some '/') := by
        rintro ⟨star, slash⟩
        have next : (s.1).head? = some d := head?_cutBlock (d :: cs)
        rw [tail, List.head?_append, slash] at next
        exact goes ⟨star, (Option.some.inj next).symm⟩
      rw [cutBlock_cons c a inside, ih a tail]

/-- A block comment that does not run to the end is closed, and nothing extends it. -/
theorem cutBlock_of_closed (cs rest : List Char) (closed : (cutBlock cs).2 ≠ []) :
    cutBlock ((cutBlock cs).1 ++ rest) = ((cutBlock cs).1, rest) := by
  fun_induction cutBlock cs with
  | case1 => exact absurd rfl closed
  | case2 => exact absurd rfl closed
  | case3 c d cs ends => simp [cutBlock, ends]
  | case4 c d cs goes s ih =>
    have next : (s.1 ++ rest).head? = some d := by
      rw [List.head?_append, head?_cutBlock (d :: cs)]
      rfl
    have inside : ¬ (c = '*' ∧ (s.1 ++ rest).head? = some '/') := by
      rw [next, Option.some.injEq]
      exact goes
    rw [List.cons_append, cutBlock_cons c _ inside, ih closed]

theorem cutBlock_append_of_closed {e : Char} {cs r : List Char}
    (body : cutBlock (cs ++ e :: r) = (cs, e :: r)) (rest : List Char) :
    cutBlock (cs ++ rest) = (cs, rest) := by
  have same := cutBlock_of_closed (cs ++ e :: r) rest (by simp [body])
  rw [body] at same
  exact same

theorem getLast?_cutBlock (cs : List Char) (closed : (cutBlock cs).2 ≠ []) :
    (cutBlock cs).1.getLast? = some '/' := by
  fun_induction cutBlock cs with
  | case1 => exact absurd rfl closed
  | case2 => exact absurd rfl closed
  | case3 c d cs ends => simp [ends]
  | case4 c d cs _ s ih => simp [List.getLast?_cons, ih closed, s]

theorem cutBlock_concat (e : Char) (cs : List Char) (other : e ≠ '/')
    (whole : cutBlock cs = (cs, [])) :
    cutBlock (cs ++ [e]) = (cs, [e]) ∨ cutBlock (cs ++ [e]) = (cs ++ [e], []) := by
  fun_induction cutBlock cs with
  | case1 => exact .inr rfl
  | case2 c => exact .inr (by simp [cutBlock, other])
  | case3 c d cs ends =>
    obtain rfl : cs = [] := by simpa using whole
    exact .inl (by simp [cutBlock, ends])
  | case4 c d cs goes s ih =>
    have inner : s = (d :: cs, []) := by simpa [Prod.ext_iff] using whole
    have inside : ¬ (c = '*' ∧ (d :: cs ++ [e]).head? = some '/') := by simpa using goes
    rcases ih inner with tail | tail
    · exact .inl (by rw [List.cons_append, cutBlock_cons c _ inside, tail])
    · exact .inr (by rw [List.cons_append, cutBlock_cons c _ inside, tail])

end TidySql.Lexer
