import TidySql.Proofs.Spelling

/-! The comparison of a result with its source.
It looks at one thing of each lexeme, `seen`, and finds no difference exactly where this
is the same at every position. A normal form changes nothing of it. A line feed after a
text can only go into a quote or a comment that is still open, at its end, where the
comparison does not look. -/
namespace TidySql
open Text Lexer

namespace Lexeme

/-- What the comparison of two texts looks at. -/
def seen (l : Lexeme) : Lexeme :=
  ⟨l.kind, if l.kind = .word then upper l.text else trimEnd l.text⟩

theorem seen_word (cs : List Char) : seen ⟨.word, cs⟩ = ⟨.word, upper cs⟩ := rfl

theorem seen_other {kind : Kind} (other : kind ≠ .word) (cs : List Char) :
    seen ⟨kind, cs⟩ = ⟨kind, trimEnd cs⟩ := by
  rw [seen, if_neg other]

theorem seen_eq_seen_iff (a b : Lexeme) : a.seen = b.seen ↔
    a.kind = b.kind ∧ Equivalence.sameText a.kind a.text b.text = true := by
  obtain ⟨kind, as⟩ := a
  obtain ⟨kind', bs⟩ := b
  by_cases same : kind = kind'
  · subst kind'
    by_cases word : kind = .word
    · subst kind
      simp [seen_word, Equivalence.sameText, equalIgnoringCase_iff_upper]
    · simp [seen_other word, Equivalence.sameText, word]
  · have apart : seen ⟨kind, as⟩ ≠ seen ⟨kind', bs⟩ := by
      intro h
      exact same (congrArg Lexeme.kind h)
    simp [apart, same]

end Lexeme

namespace Equivalence

theorem firstDifference_eq_none_iff (i : Nat) {as bs : List Lexeme} (len : as.length = bs.length) :
    firstDifference i as bs = none ↔ as.map Lexeme.seen = bs.map Lexeme.seen := by
  induction as generalizing i bs with
  | nil =>
    obtain rfl : bs = [] := List.length_eq_zero_iff.mp len.symm
    simp [firstDifference]
  | cons a as ih =>
    cases bs with
    | nil => cases len
    | cons b bs =>
      rw [List.map_cons, List.map_cons, List.cons.injEq, ← ih (i + 1) (Nat.succ.inj len),
        Lexeme.seen_eq_seen_iff, firstDifference]
      by_cases kind : a.kind = b.kind
      · by_cases text : sameText a.kind a.text b.text = true
        · simp [kind, kind ▸ text]
        · simp [kind, kind ▸ text]
      · simp [kind]

theorem mismatch?_eq_none_iff (source result : List Char) : mismatch? source result = none ↔
    (lexemes source).map Lexeme.seen = (lexemes result).map Lexeme.seen := by
  by_cases len : (lexemes source).length = (lexemes result).length
  · simp [mismatch?, map_toLexeme_tokenize, len, firstDifference_eq_none_iff 0 len]
  · constructor
    · simp [mismatch?, map_toLexeme_tokenize, len]
    · intro same
      exact absurd (by simpa using congrArg List.length same) len

end Equivalence

namespace Lexer

theorem Reads.trim_comment {cs rest : List Char} (h : Reads ⟨.comment, cs⟩ rest) :
    trim cs = trimEnd cs := by
  obtain ⟨c, ds, text, solid, -⟩ := h.next_eq
  exact trim_of_solid cs (by rw [show cs = c :: ds from text]; simp [solid])

theorem Reads.seen_normal {l : Lexeme} {rest : List Char} (h : Reads l rest) (k : KeywordCase) :
    (l.normal k).seen = l.seen := by
  obtain ⟨kind, cs⟩ := l
  cases kind with
  | word =>
    have same := Lexeme.upper_normal k cs
    rw [Lexeme.seen, Lexeme.kind_normal, if_pos rfl, same, Lexeme.seen_word]
  | comment =>
    change Lexeme.seen ⟨.comment, trim cs⟩ = _
    rw [Lexeme.seen_other (by decide), h.trim_comment, trimEnd_trimEnd, Lexeme.seen_other (by decide)]
  | quoted =>
    change Lexeme.seen ⟨.quoted, trimEnd cs⟩ = _
    rw [Lexeme.seen_other (by decide), trimEnd_trimEnd, Lexeme.seen_other (by decide)]
  | _ => rfl

/-- Of what follows a lexeme only the first character counts. -/
theorem Reads.of_same_head {l : Lexeme} {e : Char} {r : List Char} (h : Reads l (e :: r))
    (r' : List Char) : Reads l (e :: r') := by
  cases h with
  | @quoted q cs _ mark body =>
    have apart := head?_rest_cutQuoted q (cs ++ e :: r)
    rw [body] at apart
    exact .quoted mark (cutQuoted_append_of_closed body apart)
  | line body stop => exact .line body stop
  | block body => exact .block (cutBlock_append_of_closed body (e :: r'))
  | punctuation mark => exact .punctuation mark
  | pair mark => exact .pair mark
  | operator mark stop => exact .operator mark stop
  | word body stop => exact .word body stop

/-- A line feed after the last lexeme ends it, or goes into an open quote or comment. -/
theorem Reads.newline {l : Lexeme} (h : Reads l []) :
    Reads l ['\n'] ∨ (l.kind ≠ .word ∧ Reads { l with text := l.text ++ ['\n'] } []) := by
  cases h with
  | @quoted q cs _ mark body =>
    have other : '\n' ≠ q := by
      rintro rfl
      exact absurd mark (by decide)
    rw [List.append_nil] at body
    rcases cutQuoted_concat q '\n' cs other body with closed | opened
    · exact .inl (.quoted mark closed)
    · exact .inr ⟨by simp, .quoted mark (by rw [List.append_nil]; exact opened)⟩
  | line body => exact .inl (.line body (by simp; decide))
  | @block cs _ body =>
    rw [List.append_nil] at body
    rcases cutBlock_concat '\n' cs (by decide) body with closed | opened
    · exact .inl (.block closed)
    · exact .inr ⟨by simp, .block (by rw [List.append_nil]; exact opened)⟩
  | punctuation mark => exact .inl (.punctuation mark)
  | pair mark => exact .inl (.pair mark)
  | @operator c _ mark stop =>
    refine .inl (.operator mark ?_)
    rintro d ⟨rfl⟩
    exact ⟨by simp [isOperatorPair], by simp, by simp⟩
  | word body => exact .inl (.word body (by simp; decide))

end Lexer

/-- The view tells nothing of a line feed at the end of an open quote or comment. -/
def Lexeme.Overlooks {α : Type} (view : Lexeme → α) : Prop :=
  ∀ l : Lexeme, Reads l [] → l.kind ≠ .word → Reads { l with text := l.text ++ ['\n'] } [] →
    view { l with text := l.text ++ ['\n'] } = view l

theorem Lexer.Reads.map_newline {α : Type} {view : Lexeme → α} (overlooks : Lexeme.Overlooks view)
    {l : Lexeme} (h : Reads l []) : (lexemes (l.text ++ ['\n'])).map view = [view l] := by
  rcases h.newline with ended | ⟨other, opened⟩
  · rw [lexemes_of_reads ended, lexemes_of_allBlank (by decide)]
    rfl
  · have whole := lexemes_of_reads opened
    rw [List.append_nil] at whole
    rw [whole, lexemes_of_allBlank rfl, List.map_singleton, overlooks l h other opened]

/-- A line feed at the end of a text changes nothing in such a view of its lexemes. -/
theorem map_concat_newline {α : Type} {view : Lexeme → α} (overlooks : Lexeme.Overlooks view)
    (text : List Char) : (lexemes (text ++ ['\n'])).map view = (lexemes text).map view := by
  induction text using text_induction with
  | nil => rw [List.nil_append, lexemes_of_allBlank (by decide), lexemes_of_allBlank rfl]
  | blank c rest blank ih =>
    rw [List.cons_append, lexemes_of_isBlank blank, lexemes_of_isBlank blank, ih]
  | lexeme l rest read ih =>
    rw [lexemes_of_reads read]
    cases rest with
    | nil =>
      rw [List.append_nil, read.map_newline overlooks, lexemes_of_allBlank rfl]
      rfl
    | cons e r =>
      -- The line feed is not the next character, so the lexeme ends where it did.
      have after : Reads l (e :: r ++ ['\n']) := read.of_same_head (r ++ ['\n'])
      rw [List.append_assoc, lexemes_of_reads after, List.map_cons, ih, List.map_cons]

theorem map_withLineEnd {α : Type} {view : Lexeme → α} (overlooks : Lexeme.Overlooks view)
    (text : List Char) : (lexemes (withLineEnd text)).map view = (lexemes text).map view := by
  unfold withLineEnd
  split
  · rename_i empty
    rw [List.isEmpty_iff.mp empty]
  · exact map_concat_newline overlooks text

theorem Lexeme.overlooks_seen : Lexeme.Overlooks Lexeme.seen := by
  intro l _ other _
  rw [seen_other other, trimEnd_append_of_allBlank l.text ['\n'] (by decide), ← seen_other other]

/-- Only quotes and comments can be open at the end of a text. -/
theorem Lexeme.overlooks_normal (k : KeywordCase) : Lexeme.Overlooks (Lexeme.normal k) := by
  intro l _ other opened
  obtain ⟨kind, cs⟩ := l
  by_cases quoted : kind = .quoted
  · subst quoted
    change Lexeme.mk .quoted (trimEnd (cs ++ ['\n'])) = Lexeme.mk .quoted (trimEnd cs)
    rw [trimEnd_append_of_allBlank cs ['\n'] (by decide)]
  · by_cases comment : kind = .comment
    · subst comment
      change Lexeme.mk .comment (trim (cs ++ ['\n'])) = Lexeme.mk .comment (trim cs)
      rw [trim_append_of_allBlank cs ['\n'] (by decide)]
    · have solid := opened.solid comment quoted '\n' (by simp)
      exact absurd solid (by decide)

theorem Scans.map_seen_normal {ls : List Lexeme} (h : Scans ls) (k : KeywordCase) :
    (ls.map (Lexeme.normal k)).map Lexeme.seen = ls.map Lexeme.seen := by
  rw [List.map_map]
  refine List.map_congr_left ?_
  intro l member
  exact (h.reads_of_mem l member).seen_normal k

/-- The content of a file after formatting compares equal to the content before it. -/
theorem mismatch?_format (o : Options) (source : List Char) :
    Equivalence.mismatch? source (withLineEnd (format o source)) = none := by
  rw [Equivalence.mismatch?_eq_none_iff, map_withLineEnd Lexeme.overlooks_seen, lexemes_format,
    (scans_lexemes source).map_seen_normal]

theorem trimEnd_format (o : Options) (source : List Char) :
    trimEnd (format o source) = format o source := by
  rw [format_eq, Layout.format, trim, trimEnd_trimEnd]

/-- Content that is not empty has a last line, which ends right after a visible character. -/
theorem withLineEnd_format (o : Options) (source : List Char) :
    withLineEnd (format o source) = [] ∨
      ∃ body c, withLineEnd (format o source) = body ++ [c, '\n'] ∧ isBlank c = false := by
  have solid := (trimEnd_eq_self_iff _).mp (trimEnd_format o source)
  rcases List.eq_nil_or_concat (format o source) with empty | ⟨body, c, text⟩
  · exact .inl (by rw [empty]; rfl)
  · rw [text] at solid ⊢
    refine .inr ⟨body, c, ?_, solid c (by simp)⟩
    simp [withLineEnd]

theorem Mode.validate_eq (m : Mode) : m.validate =
    if 1 ≤ m.indentWidth ∧ m.indentWidth ≤ 16 then .ok ()
    else .error (.indentOutOfRange m.indentWidth) := by
  have range : m.isValid = true ↔ 1 ≤ m.indentWidth ∧ m.indentWidth ≤ 16 := by
    rw [Mode.isValid, Bool.and_eq_true, decide_eq_true_iff, decide_eq_true_iff]
    rfl
  exact if_congr range rfl rfl

theorem formatText_eq (m : Mode) (source : List Char) : formatText m source =
    if 1 ≤ m.indentWidth ∧ m.indentWidth ≤ 16 then .ok (withLineEnd (format m.options source))
    else .error (.config (.indentOutOfRange m.indentWidth)) := by
  have compared : (if m.comparesTokens then
      Equivalence.mismatch? source (withLineEnd (format m.options source)) else none) = none := by
    rw [mismatch?_format, ite_self]
  have valid := m.validate_eq
  split at valid
  · rename_i range
    simp only [formatText, valid, compared, if_pos range]
  · rename_i range
    simp only [formatText, valid, if_neg range]

/-- A mode is refused for its width, and nothing else goes wrong: the comparison finds no
fault with the result of any text, and whether it is made does not show. -/
theorem formatText_safe (m : Mode) (source : List Char) :
    (formatText m source =
      if 1 ≤ m.indentWidth ∧ m.indentWidth ≤ 16 then .ok (withLineEnd (format m.options source))
      else .error (.config (.indentOutOfRange m.indentWidth))) ∧
    Equivalence.mismatch? source (withLineEnd (format m.options source)) = none ∧
    (∀ fast check diff, formatText { m with fast, check, diff } source = formatText m source) ∧
    (withLineEnd (format m.options source) = [] ∨ ∃ body c,
      withLineEnd (format m.options source) = body ++ [c, '\n'] ∧ isBlank c = false) := by
  refine ⟨formatText_eq m source, mismatch?_format m.options source, ?_,
    withLineEnd_format m.options source⟩
  intro fast check diff
  rw [formatText_eq, formatText_eq]
  rfl

end TidySql
