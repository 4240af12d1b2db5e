import TidySql.Layout
import TidySql.Proofs.Normal

/-! What layout reads of a lexeme.
Grouping, and every decision of a step, reads the normal forms of the lexemes alone,
whichever case they are in. The text of an unclosed quote is the one exception, and it
can only be the last lexeme, where the final trim hides the difference. -/
namespace TidySql
open Text Lexer

theorem Compound.upper_halves :
    ∀ c ∈ Compound.all, upper c.first = c.first ∧ upper c.second = c.second := by decide

theorem Compound.find?_eq_some {a b : List Char} {c : Compound} (h : Compound.find? a b = some c) :
    c ∈ Compound.all ∧ upper a = c.first ∧ upper b = c.second := by
  have member := List.mem_of_find?_eq_some h
  have same := List.find?_some h
  rw [Bool.and_eq_true, equalIgnoringCase_iff_upper, equalIgnoringCase_iff_upper] at same
  have f := Compound.upper_halves c member
  exact ⟨member, same.1.trans f.1, same.2.trans f.2⟩

theorem Compound.find?_congr {a a' b b' : List Char} (first : upper a = upper a')
    (second : upper b = upper b') : Compound.find? a b = Compound.find? a' b' := by
  have firstLower : lower a = lower a' := by rw [← lower_upper a, first, lower_upper]
  have secondLower : lower b = lower b' := by rw [← lower_upper b, second, lower_upper]
  simp only [Compound.find?, equalIgnoringCase, firstLower, secondLower]

namespace Phrase

variable (k : KeywordCase)

def normal : Phrase → Phrase
  | compound c => compound c
  | single l => single (l.normal k)

/-- The lexemes that layout writes for a phrase. -/
def lexemes : Phrase → List Lexeme
  | compound c => [⟨.word, k.apply c.first⟩, ⟨.word, k.apply c.second⟩]
  | single l => [l.normal k]

theorem compoundOf?_eq_some_iff {a b : Lexeme} {c : Compound} : compoundOf? a b = some c ↔
    (a.kind = .word ∧ b.kind = .word) ∧ Compound.find? a.text b.text = some c := by
  rw [compoundOf?, Option.ite_none_right_eq_some]

theorem compoundOf?_eq_some {a b : Lexeme} {c : Compound} (h : compoundOf? a b = some c) :
    a.normal k = ⟨.word, k.apply c.first⟩ ∧ b.normal k = ⟨.word, k.apply c.second⟩ := by
  obtain ⟨ka, as⟩ := a
  obtain ⟨kb, bs⟩ := b
  obtain ⟨words, found⟩ := compoundOf?_eq_some_iff.mp h
  obtain ⟨rfl, rfl⟩ : ka = .word ∧ kb = .word := words
  obtain ⟨member, first, second⟩ := Compound.find?_eq_some found
  have reserved := (Compound.isClause_text c member).2
  rw [Lexeme.normal_reserved k as (first ▸ reserved.1),
    Lexeme.normal_reserved k bs (second ▸ reserved.2), first, second]
  exact ⟨rfl, rfl⟩

theorem mem_all_of_compoundOf? {a b : Lexeme} {c : Compound} (h : compoundOf? a b = some c) :
    c ∈ Compound.all :=
  (Compound.find?_eq_some (compoundOf?_eq_some_iff.mp h).2).1

theorem compoundOf?_normal (a b : Lexeme) :
    compoundOf? (a.normal k) (b.normal k) = compoundOf? a b := by
  obtain ⟨ka, as⟩ := a
  obtain ⟨kb, bs⟩ := b
  simp only [compoundOf?, Lexeme.kind_normal]
  split
  · rename_i words
    obtain ⟨rfl, rfl⟩ : ka = .word ∧ kb = .word := words
    exact Compound.find?_congr (Lexeme.upper_normal k as) (Lexeme.upper_normal k bs)
  · rfl

theorem group_map_normal (ls : List Lexeme) :
    group (ls.map (Lexeme.normal k)) = (group ls).map (normal k) := by
  fun_induction group ls with
  | case1 => rfl
  | case2 => rfl
  | case3 a b ls c pair ih =>
    simp only [List.map_cons, group, compoundOf?_normal, pair, ih]
    rfl
  | case4 a b ls pair ih =>
    simp only [List.map_cons, group, compoundOf?_normal, pair] at ih ⊢
    rw [ih]
    rfl

theorem flatMap_group (ls : List Lexeme) :
    (group ls).flatMap (lexemes k) = ls.map (Lexeme.normal k) := by
  fun_induction group ls with
  | case1 => rfl
  | case2 => rfl
  | case3 a b ls c pair ih =>
    obtain ⟨first, second⟩ := compoundOf?_eq_some k pair
    rw [List.flatMap_cons, ih, List.map_cons, List.map_cons, first, second]
    rfl
  | case4 a b ls pair ih =>
    rw [List.flatMap_cons, ih]
    rfl

/-- The last of some lexemes and the first of others make no compound keyword. -/
def Apart (as bs : List Lexeme) : Prop :=
  ∀ a ∈ as.getLast?, ∀ b ∈ bs.head?, compoundOf? a b = none

theorem Apart.tail {a : Lexeme} {as bs : List Lexeme} (h : Apart (a :: as) bs) : Apart as bs := by
  cases as with
  | nil => intro l none; cases none
  | cons b as =>
    intro l last
    refine h l ?_
    rw [List.getLast?_cons_cons]
    exact last

theorem group_append_of_apart {as bs : List Lexeme} (h : Apart as bs) :
    group (as ++ bs) = group as ++ group bs := by
  fun_induction group as with
  | case1 => rfl
  | case2 a =>
    cases bs with
    | nil => rfl
    | cons b bs => simp [group, h a rfl b rfl]
  | case3 a b ls c pair ih => simp [group, pair, ih h.tail.tail]
  | case4 a b ls pair ih => simpa [group, pair] using ih h.tail

end Phrase

namespace Layout
namespace State

variable (o : Options) (k : KeywordCase) (s : State)

theorem toList_out_write (text : List Char) (level : Nat) :
    (s.write o text level).out.toList =
      s.out.toList ++ (if s.atLineStart then o.margin level else []) ++ text ++ [' '] := by
  simp [write]

theorem word_congr {a b : List Char} (same : upper a = upper b)
    (name : Keyword.isReserved (upper a) = false → a = b) : s.word o a = s.word o b := by
  simp only [word, same]
  split
  · rfl
  · split
    · rfl
    · split
      · rfl
      · rename_i plain
        rw [name (by rw [same]; simpa using plain)]

theorem comment_trim (cs : List Char) : s.comment o (trim cs) = s.comment o cs := by
  rw [comment, comment, trim_trim]

/-- A step on a lexeme in normal form is the step on the lexeme, as long as no quoted
text loses blanks. -/
theorem lexeme_normal (l : Lexeme) (whole : l.kind = .quoted → trimEnd l.text = l.text) :
    s.lexeme o (l.normal k) = s.lexeme o l := by
  obtain ⟨kind, cs⟩ := l
  cases kind with
  | word =>
    have same := Lexeme.upper_normal k cs
    have kept : Keyword.isReserved (upper cs) = false → (Lexeme.normal k ⟨.word, cs⟩).text = cs :=
      fun h => by rw [Lexeme.normal_name k cs h]
    simp only [lexeme, Lexeme.kind_normal]
    exact word_congr o s same fun h => kept (same ▸ h)
  | comment => exact comment_trim o s cs
  | quoted => exact congrArg (s.verbatim o) (whole rfl)
  | _ => rfl

theorem trim_verbatim (cs : List Char) :
    trim (s.verbatim o (trimEnd cs)).out.toList = trim (s.verbatim o cs).out.toList := by
  obtain ⟨b, blank, whole⟩ := trimEnd_append_blanks cs
  have padded : allBlank (b ++ [' ']) = true := by
    rw [allBlank, List.all_append, Bool.and_eq_true]
    exact ⟨blank, by decide⟩
  simp only [verbatim, toList_out_write]
  generalize s.out.toList ++ (if s.atLineStart then o.margin s.indent else []) = before
  calc trim (before ++ trimEnd cs ++ [' '])
      = trim (before ++ trimEnd cs) := trim_append_of_allBlank _ _ (by decide)
    _ = trim (before ++ trimEnd cs ++ (b ++ [' '])) := (trim_append_of_allBlank _ _ padded).symm
    _ = trim (before ++ (trimEnd cs ++ b) ++ [' ']) := by simp only [List.append_assoc]
    _ = trim (before ++ cs ++ [' ']) := by rw [whole]

/-- For the last lexeme the final trim hides what a quoted text loses. -/
theorem trim_lexeme_normal (l : Lexeme) :
    trim (s.lexeme o (l.normal k)).out.toList = trim (s.lexeme o l).out.toList := by
  by_cases quoted : l.kind = .quoted
  · obtain ⟨kind, cs⟩ := l
    obtain rfl : kind = .quoted := quoted
    exact trim_verbatim o s cs
  · rw [lexeme_normal o k s l fun h => absurd h quoted]

end State

theorem trim_foldl_normal (o : Options) (k : KeywordCase) (s : State) (ls : List Lexeme)
    (h : Scans ls) :
    trim ((Phrase.group (ls.map (Lexeme.normal k))).foldl (State.step o) s).out.toList =
      trim ((Phrase.group ls).foldl (State.step o) s).out.toList := by
  rw [Phrase.group_map_normal]
  fun_induction Phrase.group ls generalizing s with
  | case1 => rfl
  | case2 a =>
    -- Only the last lexeme can be an open quote, and what it loses is trimmed anyway.
    exact State.trim_lexeme_normal o k s a
  | case3 a b ls c pair ih => exact ih _ h.tail.tail
  | case4 a b ls pair ih =>
    obtain ⟨e, r, closed⟩ : ∃ e r, Reads a (e :: r) := by
      cases h with
      | cons closed => exact ⟨_, _, closed⟩
    simp only [List.map_cons, List.foldl_cons, Phrase.normal, State.step]
    rw [State.lexeme_normal o k s a closed.trimEnd_quoted]
    exact ih _ h.tail

/-- Layout reads the normal forms alone. -/
theorem format_map_normal (o : Options) (k : KeywordCase) (ls : List Lexeme) (h : Scans ls) :
    format o (ls.map (Lexeme.normal k)) = format o ls :=
  trim_foldl_normal o k {} ls h

end Layout
end TidySql
