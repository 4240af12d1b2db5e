import TidySql.Proofs.Comparison
import TidySql.Proofs.Grammar

/-! What the comparison of two texts says of the texts themselves.
The comparison sees two lists of lexemes, and each of them holds all of its text but the blanks.
A lexeme that is closed has no blank at its end to be overlooked, so it is seen whole. -/
namespace TidySql
open Text Lexer

namespace Grammar

/-- A quoted text that ends with its own quote, and a block comment that ends with its mark. -/
inductive Closed : Lexeme → Prop where
  | quoted {q : Char} {cs : List Char} (mark : isQuote q = true) (inside : Content q cs) :
      Closed ⟨.quoted, q :: (cs ++ [q])⟩
  | block {cs : List Char} (inside : ¬ ['*', '/'] <:+: cs ++ ['*']) :
      Closed ⟨.comment, '/' :: '*' :: (cs ++ ['*', '/'])⟩

theorem Closed.trimEnd_text {l : Lexeme} (closed : Closed l) : trimEnd l.text = l.text := by
  rw [trimEnd_eq_self_iff]
  cases closed with
  | @quoted q cs mark inside =>
    simpa [List.getLast?_cons] using (isQuote_facts q mark).1
  | block inside =>
    have last : isBlank '/' = false := by decide
    simpa [List.getLast?_cons] using last

/-- A closed lexeme ends where it ends, whatever comes after a blank. -/
theorem Closed.reads {l : Lexeme} (closed : Closed l) {d : Char} (white : isBlank d = true)
    (rest : List Char) : Reads l (d :: rest) := by
  cases closed with
  | @quoted q cs mark inside =>
    apply Rule.reads
    refine .quoted mark inside ?_
    rintro ⟨rfl⟩
    exact Bool.false_ne_true ((isQuote_facts d mark).1.symm.trans white)
  | block inside => exact Rule.reads (.blockComment inside)

/-- The test: a line feed after the lexeme does not become part of it. -/
def isClosed (l : Lexeme) : Bool :=
  match l.kind, l.text with
  | .quoted, q :: cs => isQuote q && cutQuoted q (cs ++ ['\n']) == (cs, ['\n'])
  | .comment, '/' :: '*' :: cs => cutBlock (cs ++ ['\n']) == (cs, ['\n'])
  | _, _ => false

theorem isClosed_iff (l : Lexeme) : isClosed l = true ↔ Closed l := by
  constructor
  · intro test
    obtain ⟨kind, text⟩ := l
    unfold isClosed at test
    split at test
    · rename_i q cs quoted whole
      obtain rfl : kind = .quoted := quoted
      obtain rfl : text = q :: cs := whole
      simp only [Bool.and_eq_true, beq_iff_eq] at test
      have rule := Rule.of_reads (.quoted test.1 test.2)
      generalize lead : '\n' :: [] = rest at rule
      cases rule with
      | quoted mark inside => exact .quoted mark inside
      | openQuoted | openEscape => cases lead
      | punctuation mark => simpa using punctuation?_cases mark
    · rename_i cs comment whole
      obtain rfl : kind = .comment := comment
      obtain rfl : text = '/' :: '*' :: cs := whole
      rw [beq_iff_eq] at test
      have rule := Rule.of_reads (.block test)
      generalize lead : '\n' :: [] = rest at rule
      cases rule with
      | blockComment inside => exact .block inside
      | openComment => cases lead
    · cases test
  · intro closed
    have read := closed.reads (by decide : isBlank '\n' = true) []
    cases closed with
    | @quoted q cs mark inside =>
      generalize cs ++ [q] = content at read ⊢
      cases read with
      | quoted _ body => simp [isClosed, mark, body]
      | punctuation mark => simpa using punctuation?_cases mark
    | @block cs inside =>
      generalize cs ++ ['*', '/'] = content at read ⊢
      cases read with
      | block body => simp [isClosed, body]

instance : DecidablePred Closed := fun l => decidable_of_iff _ (isClosed_iff l)

end Grammar

open Grammar

/-- A text starts with one lexeme only. -/
theorem Lexer.Reads.unique {l m : Lexeme} {rest rest' : List Char} (h : Reads l rest)
    (h' : Reads m rest') (same : l.text ++ rest = m.text ++ rest') : l = m ∧ rest = rest' := by
  obtain ⟨c, cs, text, -, taken⟩ := h.next_eq
  obtain ⟨d, ds, text', -, taken'⟩ := h'.next_eq
  rw [text, text', List.cons_append, List.cons_append, List.cons.injEq] at same
  rw [same.1, same.2, taken', Prod.mk.injEq, Piece.lexeme.injEq] at taken
  exact ⟨taken.1.symm, taken.2.symm⟩

theorem Lexer.Reads.trimEnd_of_closed {kind : Kind} {text : List Char}
    (read : Reads ⟨kind, text⟩ []) (closed : Closed ⟨kind, trimEnd text⟩) :
    trimEnd text = text := by
  obtain ⟨b, blank, whole⟩ := trimEnd_append_blanks text
  cases b with
  | nil => simpa using whole
  | cons d b =>
    simp only [allBlank, List.all_cons, Bool.and_eq_true] at blank
    have ends := (closed.reads blank.1 b).unique read (by simpa using whole)
    cases ends.2

/-- The comparison sees a closed lexeme as it is, and takes no other one for it. -/
theorem Lexer.Reads.closed_seen {l : Lexeme} (read : Reads l []) :
    (Closed l.seen ↔ Closed l) ∧ (Closed l → l.seen = l) := by
  obtain ⟨kind, text⟩ := l
  by_cases word : kind = .word
  · subst kind
    have none : ∀ cs, ¬ Closed ⟨.word, cs⟩ := by
      intro cs closed
      cases closed
    exact ⟨iff_of_false (none _) (none _), fun closed => absurd closed (none _)⟩
  · rw [Lexeme.seen_other word]
    refine ⟨⟨?_, ?_⟩, ?_⟩
    · intro closed
      rw [read.trimEnd_of_closed closed] at closed
      exact closed
    · intro closed
      rw [show trimEnd text = text from closed.trimEnd_text]
      exact closed
    · intro closed
      rw [show trimEnd text = text from closed.trimEnd_text]

theorem Scans.filter_closed_seen {ls : List Lexeme} (h : Scans ls) :
    (ls.map Lexeme.seen).filter Closed = ls.filter Closed := by
  have facts := fun l member => (h.reads_of_mem l member).closed_seen
  rw [List.filter_map]
  have same : ls.filter ((fun l => decide (Closed l)) ∘ Lexeme.seen) = ls.filter Closed := by
    apply List.filter_congr
    intro l member
    exact decide_eq_decide.mpr (facts l member).1
  rw [same]
  conv_rhs => rw [← List.map_id (ls.filter Closed)]
  apply List.map_congr_left
  intro l kept
  rw [List.mem_filter, decide_eq_true_iff] at kept
  exact (facts l kept.1).2 kept.2

/-! ### Texts without their blanks -/

namespace Text

theorem isBlank_toUpper (c : Char) : isBlank c.toUpper = isBlank c := by
  rcases toUpper_cases c with same | ⟨i, small, rfl⟩
  · rw [same]
  · have letter := small_facts i small
    rw [((isWord_iff _).mp letter.2.2.2.1).1, ((isWord_iff _).mp letter.2.2.2.2).1]

theorem withoutBlanks_upper (cs : List Char) :
    withoutBlanks (upper cs) = upper (withoutBlanks cs) := by
  simp only [withoutBlanks, upper, List.filter_map, Function.comp_def, isBlank_toUpper]

end Text

/-- The blanks between the lexemes are all that the lexemes leave out. -/
theorem withoutBlanks_eq_flatMap (source : List Char) :
    withoutBlanks source = (lexemes source).flatMap fun l => withoutBlanks l.text := by
  induction source using text_induction with
  | nil =>
    rw [lexemes, pieces]
    rfl
  | blank c rest blank ih =>
    rw [lexemes_of_isBlank blank, ← ih, withoutBlanks, List.filter_cons_of_neg (by simp [blank])]
    rfl
  | lexeme l rest read ih => rw [lexemes_of_reads read, withoutBlanks_append, ih, List.flatMap_cons]

theorem Lexeme.lower_withoutBlanks_seen (l : Lexeme) :
    lower (withoutBlanks l.seen.text) = lower (withoutBlanks l.text) := by
  obtain ⟨kind, cs⟩ := l
  by_cases word : kind = .word
  · subst kind
    rw [seen_word, withoutBlanks_upper, lower_upper]
  · rw [seen_other word, withoutBlanks_trimEnd]

theorem lower_withoutBlanks (source : List Char) : lower (withoutBlanks source) =
    ((lexemes source).map Lexeme.seen).flatMap fun l => lower (withoutBlanks l.text) := by
  rw [withoutBlanks_eq_flatMap, lower, List.map_flatMap, List.flatMap_map]
  exact congrArg (fun f => (lexemes source).flatMap f)
    (funext fun l => l.lower_withoutBlanks_seen.symm)

namespace Equivalence

/-- Texts that the comparison accepts for each other differ, apart from blanks, in the case of
letters only, and they hold the same closed quotes and comments in the same order. This relation
of texts is an equivalence. -/
theorem mismatch?_sound :
    (∀ a b, mismatch? a b = none →
      equalIgnoringCase (withoutBlanks a) (withoutBlanks b) = true ∧
      ((tokenize a).map Token.toLexeme).filter Closed =
        ((tokenize b).map Token.toLexeme).filter Closed) ∧
    Equivalence fun a b => mismatch? a b = none := by
  refine ⟨?_, ?_⟩
  · intro a b accepted
    rw [mismatch?_eq_none_iff] at accepted
    constructor
    · rw [equalIgnoringCase_iff, lower_withoutBlanks, lower_withoutBlanks, accepted]
    · rw [map_toLexeme_tokenize, map_toLexeme_tokenize, ← (scans_lexemes a).filter_closed_seen,
        ← (scans_lexemes b).filter_closed_seen, accepted]
  · simp only [mismatch?_eq_none_iff]
    constructor
    · intro a
      rfl
    · intro a b accepted
      exact accepted.symm
    · intro a b c accepted accepted'
      exact accepted.trans accepted'

theorem mismatch?_sound_call :
    mismatch? "f('A b',/*c*/x) 'd ".toList "F ( 'A b' , /*c*/ X ) 'd".toList = none ∧
    (lexemes "f('A b',/*c*/x) 'd ".toList).filter Closed =
      [⟨.quoted, "'A b'".toList⟩, ⟨.comment, "/*c*/".toList⟩] ∧
    ((tokenize "f('A b',/*c*/x) 'd ".toList).map Token.toLexeme).filter Closed =
      ((tokenize "F ( 'A b' , /*c*/ X ) 'd".toList).map Token.toLexeme).filter Closed := by
  have accepted :
      mismatch? "f('A b',/*c*/x) 'd ".toList "F ( 'A b' , /*c*/ X ) 'd".toList = none := by
    decide +kernel
  exact ⟨accepted, by decide +kernel, (mismatch?_sound.1 _ _ accepted).2⟩

end Equivalence
end TidySql
