import TidySql.Proofs.Context

/-! Parentheses that stay open.
A parenthesis is closed where the ones after it are even and one more is closed, and a closing one
with no partner closes nothing. The stack of the context holds the parentheses that no later lexeme
closes, each as the word before it opened it, and this is kept lexeme by lexeme. -/
namespace TidySql
open Text

/-- A parenthesis that is open before the lexemes is closed by one of them: the parentheses
between are closed as often as they are opened. -/
def ClosesParen (ks : List Kind) : Prop :=
  ∃ a b, ks = a ++ .closeParen :: b ∧ a.count .openParen = a.count .closeParen

/-- Every opening parenthesis is closed by a later one. Closing ones may be left over. -/
def ParensClosed : List Kind → Prop
  | [] => True
  | k :: ks => (k = .openParen → ClosesParen ks) ∧ ParensClosed ks

theorem ParensClosed.of_append {as bs : List Kind} (h : ParensClosed (as ++ bs)) :
    ParensClosed bs := by
  induction as with
  | nil => exact h
  | cons k as ih => exact ih h.2

theorem ParensClosed.count_le {ks : List Kind} (h : ParensClosed ks) :
    ks.count .openParen ≤ ks.count .closeParen := by
  induction hn : ks.length using Nat.strong_induction_on generalizing ks with
  | _ n ih =>
    cases ks with
    | nil => simp
    | cons k ks =>
      simp only [List.length_cons] at hn
      by_cases opens : k = .openParen
      · obtain ⟨a, b, rfl, even⟩ := h.1 opens
        have rest : ParensClosed b := (List.append_cons a .closeParen b ▸ h.2).of_append
        have fewer := ih b.length (by simp at hn; omega) rest rfl
        subst opens
        simp only [List.count_cons, List.count_append, even]
        simp
        omega
      · have tail := ih ks.length (by omega) h.2 rfl
        simp only [List.count_cons, beq_iff_eq, if_neg opens]
        omega

/-- A parenthesis opens at the place, and none of the later ones closes it. -/
def StaysOpen (ks : List Kind) (i : Nat) : Prop :=
  ks[i]? = some .openParen ∧ ¬ ClosesParen (ks.drop (i + 1))

/-- The places of the parentheses that stay open, the last one first. -/
structure OpenPlaces (ks : List Kind) (places : List Nat) : Prop where
  decreasing : places.Pairwise (· > ·)
  mem_iff : ∀ i, i ∈ places ↔ StaysOpen ks i

theorem ClosesParen.append {ks : List Kind} (closes : ClosesParen ks) (ls : List Kind) :
    ClosesParen (ks ++ ls) := by
  obtain ⟨a, b, rfl, even⟩ := closes
  exact ⟨a, b ++ ls, by simp, even⟩

theorem closesParen_concat_iff (ks : List Kind) (k : Kind) : ClosesParen (ks ++ [k]) ↔
    ClosesParen ks ∨ k = .closeParen ∧ ks.count .openParen = ks.count .closeParen := by
  constructor
  · rintro ⟨a, b, split, even⟩
    rcases List.eq_nil_or_concat b with rfl | ⟨b, k', rfl⟩
    · obtain ⟨rfl, last⟩ := List.append_inj' split rfl
      exact .inr ⟨by simpa using last, even⟩
    · rw [List.concat_eq_append, ← List.cons_append, ← List.append_assoc] at split
      obtain ⟨rfl, -⟩ := List.append_inj' split rfl
      exact .inl ⟨a, b, rfl, even⟩
  · rintro (closes | ⟨rfl, even⟩)
    · exact closes.append [k]
    · exact ⟨ks, [], rfl, even⟩

theorem count_le_of_not_closesParen {ks : List Kind} (unclosed : ¬ ClosesParen ks) :
    ks.count .closeParen ≤ ks.count .openParen := by
  induction ks using List.reverseRecOn with
  | nil => simp
  | append_singleton ks k ih =>
    rw [closesParen_concat_iff, not_or] at unclosed
    have before := ih unclosed.1
    rw [List.count_append, List.count_append]
    by_cases closes : k = .closeParen
    · have uneven : ks.count .openParen ≠ ks.count .closeParen :=
        fun even => unclosed.2 ⟨closes, even⟩
      subst closes
      simp
      omega
    · simp [closes]
      omega

theorem parensClosed_iff (ks : List Kind) : ParensClosed ks ↔ ∀ i, ¬ StaysOpen ks i := by
  induction ks with
  | nil => simp [ParensClosed, StaysOpen]
  | cons k ks ih =>
    rw [ParensClosed, ih]
    constructor
    · rintro ⟨first, later⟩ i ⟨opens, unclosed⟩
      cases i with
      | zero => exact unclosed (first (Option.some.inj opens))
      | succ i => exact later i ⟨opens, unclosed⟩
    · intro none
      refine ⟨fun opens => ?_, fun i stays => none (i + 1) stays⟩
      by_contra unclosed
      exact none 0 ⟨congrArg some opens, unclosed⟩

namespace StaysOpen
variable {ks : List Kind} {i : Nat}

theorem lt_length (stays : StaysOpen ks i) : i < ks.length :=
  (List.getElem?_eq_some_iff.mp stays.1).1

theorem drop_iff (n : Nat) : StaysOpen (ks.drop n) i ↔ StaysOpen ks (n + i) := by
  rw [StaysOpen, StaysOpen, List.getElem?_drop, List.drop_drop, Nat.add_assoc]

/-- Where one stays open, and nothing closes a parenthesis before all, more are opened than closed. -/
theorem count_lt (stays : StaysOpen ks i) (unclosed : ¬ ClosesParen ks) :
    ks.count .closeParen < ks.count .openParen := by
  obtain ⟨bound, opens⟩ := List.getElem?_eq_some_iff.mp stays.1
  have split : ks = ks.take i ++ .openParen :: ks.drop (i + 1) := by
    rw [← opens, ← List.drop_eq_getElem_cons bound, List.take_append_drop]
  have front : ¬ ClosesParen (ks.take i) := fun closes => unclosed (split ▸ closes.append _)
  have before := count_le_of_not_closesParen front
  have after := count_le_of_not_closesParen stays.2
  rw [split, List.count_append, List.count_append, List.count_cons, List.count_cons]
  simp
  omega

/-- One more lexeme opens a place, or closes one where the parentheses after it are even. -/
theorem concat_iff (k : Kind) : StaysOpen (ks ++ [k]) i ↔
    i = ks.length ∧ k = .openParen ∨ StaysOpen ks i ∧ ¬ (k = .closeParen ∧
      (ks.drop (i + 1)).count .openParen = (ks.drop (i + 1)).count .closeParen) := by
  rcases Nat.lt_trichotomy i ks.length with inside | rfl | outside
  · rw [StaysOpen, List.getElem?_append_left inside, List.drop_append_of_le_length inside,
      closesParen_concat_iff, StaysOpen, not_or, and_assoc]
    simp [Nat.ne_of_lt inside]
  · have nothing : ¬ ClosesParen [] := by
      rintro ⟨a, b, split, -⟩
      simp at split
    simp [StaysOpen, nothing]
  · have bound : (ks ++ [k]).length ≤ i := by
      rw [List.length_append, List.length_singleton]
      exact outside
    constructor
    · rintro ⟨opens, -⟩
      rw [List.getElem?_eq_none bound] at opens
      cases opens
    · rintro (⟨rfl, -⟩ | ⟨stays, -⟩)
      · exact absurd outside (Nat.lt_irrefl _)
      · exact absurd stays.lt_length (Nat.lt_asymm outside)

end StaysOpen

namespace OpenPlaces
variable {ks : List Kind} {places : List Nat} {k : Kind}

theorem nil : OpenPlaces [] [] := ⟨.nil, by simp [StaysOpen]⟩

theorem opening (h : OpenPlaces ks places) : OpenPlaces (ks ++ [.openParen]) (ks.length :: places) where
  decreasing := .cons (fun i member => ((h.mem_iff i).mp member).lt_length) h.decreasing
  mem_iff i := by simp [StaysOpen.concat_iff, h.mem_iff]

theorem plain (h : OpenPlaces ks places) (opens : k ≠ .openParen) (closes : k ≠ .closeParen) :
    OpenPlaces (ks ++ [k]) places where
  decreasing := h.decreasing
  mem_iff i := by simp [StaysOpen.concat_iff, h.mem_iff, opens, closes]

theorem eq_nil (h : OpenPlaces ks places) (closed : ParensClosed ks) : places = [] :=
  List.eq_nil_iff_forall_not_mem.mpr fun i member =>
    (parensClosed_iff ks).mp closed i ((h.mem_iff i).mp member)

theorem closing (h : OpenPlaces ks places) : OpenPlaces (ks ++ [.closeParen]) places.tail where
  decreasing := h.decreasing.tail
  mem_iff i := by
    rw [StaysOpen.concat_iff]
    cases places with
    | nil =>
      have none : ¬ StaysOpen ks i := fun stays => by simpa using (h.mem_iff i).mpr stays
      simp [none]
    | cons p places =>
      have earlier := (List.pairwise_cons.mp h.decreasing).1
      have inner : StaysOpen ks p := (h.mem_iff p).mp List.mem_cons_self
      -- What opens after the last open place is closed there, so the rest is even.
      have later : ParensClosed (ks.drop (p + 1)) := by
        refine (parensClosed_iff _).mpr fun j stays => ?_
        have listed := (h.mem_iff _).mpr ((StaysOpen.drop_iff (p + 1)).mp stays)
        rcases List.mem_cons.mp listed with same | member
        · omega
        · have := earlier _ member
          omega
      have even := Nat.le_antisymm later.count_le (count_le_of_not_closesParen inner.2)
      rw [List.tail_cons]
      constructor
      · intro member
        have stays : StaysOpen ks i := (h.mem_iff i).mp (List.mem_cons_of_mem p member)
        have below : p = i + 1 + (p - (i + 1)) := by
          have := earlier i member
          omega
        -- Before it the rest is not even, as the last open place is in it.
        have after : StaysOpen (ks.drop (i + 1)) (p - (i + 1)) :=
          (StaysOpen.drop_iff (i + 1)).mpr (below ▸ inner)
        have more := after.count_lt stays.2
        exact .inr ⟨stays, fun h => by omega⟩
      · rintro (⟨-, opens⟩ | ⟨stays, uneven⟩)
        · cases opens
        · rcases List.mem_cons.mp ((h.mem_iff i).mpr stays) with rfl | member
          · exact absurd ⟨rfl, even⟩ uneven
          · exact member

end OpenPlaces

namespace Phrase

theorem lastWord_of_compoundOf? {a b : Lexeme} {k : Compound}
    (pair : compoundOf? a b = some k) : lastWord (.single b) = k.second := by
  obtain ⟨words, found⟩ := compoundOf?_eq_some_iff.mp pair
  rw [lastWord, if_pos words.2]
  exact (Compound.find?_eq_some found).2.2

end Phrase

namespace Layout

/-- The last lexeme in upper case, if it is a word. -/
def finalWord (read : List Lexeme) : List Char :=
  match read.getLast? with
  | some ⟨.word, cs⟩ => upper cs
  | _ => []

/-- How a parenthesis at the place is opened: by the word before it. -/
def styleAt (read : List Lexeme) (i : Nat) : Paren := Paren.after (finalWord (read.take i))

theorem finalWord_concat (read : List Lexeme) (l : Lexeme) :
    finalWord (read ++ [l]) = Phrase.lastWord (.single l) := by
  obtain ⟨kind, cs⟩ := l
  rw [finalWord, List.getLast?_concat]
  cases kind <;> rfl

theorem styleAt_append {read : List Lexeme} (l : Lexeme) {i : Nat} (old : i ≤ read.length) :
    styleAt (read ++ [l]) i = styleAt read i := by
  rw [styleAt, List.take_append_of_le_length old, styleAt]

/-- The last word and the open parentheses are those of the lexemes. -/
structure Context.Follows (read : List Lexeme) (c : Context) : Prop where
  previous : c.previous = finalWord read
  parens : ∃ places, OpenPlaces (read.map Lexeme.kind) places ∧
    c.parens = places.map (styleAt read)

namespace Context.Follows
variable {read : List Lexeme} {c : Context}

theorem nil : Follows [] {} := ⟨rfl, [], .nil, rfl⟩

theorem single (h : Follows read c) (l : Lexeme) :
    Follows (read ++ [l]) (c.step (.single l)) := by
  obtain ⟨places, opened, parens⟩ := h.parens
  have styles : c.parens = places.map (styleAt (read ++ [l])) := by
    rw [parens]
    refine List.map_congr_left fun i member => (styleAt_append l ?_).symm
    simpa using Nat.le_of_lt ((opened.mem_iff i).mp member).lt_length
  refine ⟨(finalWord_concat read l).symm, ?_⟩
  rw [List.map_append, List.map_singleton]
  cases kind : l.kind with
  | openParen =>
    refine ⟨_, opened.opening, ?_⟩
    have style : styleAt (read ++ [l]) (read.map Lexeme.kind).length = Paren.after c.previous := by
      rw [List.length_map, styleAt_append l (Nat.le_refl _), styleAt, List.take_length, h.previous]
    rw [List.map_cons, style, ← styles]
    simp [step, Phrase.isKind, kind]
  | closeParen =>
    refine ⟨_, opened.closing, ?_⟩
    rw [List.map_tail, ← styles]
    simp [step, Phrase.isKind, kind]
  | _ =>
    refine ⟨places, opened.plain (by simp) (by simp), ?_⟩
    rw [← styles]
    simp [step, Phrase.isKind, kind]

theorem compound (h : Follows read c) {a b : Lexeme} {k : Compound}
    (pair : Phrase.compoundOf? a b = some k) :
    Follows (read ++ [a, b]) (c.step (.compound k)) := by
  obtain ⟨first, second⟩ := (Phrase.compoundOf?_eq_some_iff.mp pair).1
  -- The two words leave the parentheses as they are, so they may be read one by one.
  have both := (h.single a).single b
  rw [List.append_assoc, List.singleton_append] at both
  have word : (c.step (.compound k)).previous = ((c.step (.single a)).step (.single b)).previous :=
    (Phrase.lastWord_of_compoundOf? pair).symm
  have parens : (c.step (.compound k)).parens = ((c.step (.single a)).step (.single b)).parens := by
    simp [step, Phrase.isKind, first, second]
  exact ⟨word.trans both.previous, parens ▸ both.parens⟩

theorem foldl (h : Follows read c) (ls : List Lexeme) :
    Follows (read ++ ls) ((Phrase.group ls).foldl Context.step c) := by
  fun_induction Phrase.group ls generalizing read c with
  | case1 => simpa using h
  | case2 a => exact h.single a
  | case3 a b ls k pair ih => simpa using ih (h.compound pair)
  | case4 a b ls pair ih => simpa using ih (h.single a)

end Context.Follows

end Layout
end TidySql
