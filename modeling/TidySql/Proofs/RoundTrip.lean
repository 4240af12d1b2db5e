import TidySql.Proofs.Spelling

/-! Formatting and the tokens of a text.
Formatting keeps every token up to its normal form, and reads the source through the
normal forms alone. So the options of the last of several runs decide the result. -/
namespace TidySql
open Text Lexer

/-- Equal formatted texts are equal normal forms. -/
theorem format_eq_format_iff (o : Options) (a b : List Char) :
    format o a = format o b ↔ (lexemes a).map (Lexeme.normal o.keywordCase) =
      (lexemes b).map (Lexeme.normal o.keywordCase) := by
  constructor
  · intro same
    rw [← lexemes_format, ← lexemes_format, same]
  · intro same
    rw [format_eq, format_eq, ← Layout.format_map_normal o o.keywordCase _ (scans_lexemes a), same,
      Layout.format_map_normal o o.keywordCase _ (scans_lexemes b)]

theorem format_format (o o' : Options) (source : List Char) :
    format o (format o' source) = format o source := by
  rw [format_eq, lexemes_format, Layout.format_map_normal o _ _ (scans_lexemes source), ← format_eq]

theorem whole_of_scans {ls : List Lexeme} (h : Scans ls) :
    ∀ l ∈ ls.dropLast, l.kind = .quoted → trimEnd l.text = l.text := by
  induction h with
  | nil | last => simp
  | cons closed _ ih =>
    intro l member
    rw [List.dropLast_cons_cons] at member
    rcases List.mem_cons.mp member with rfl | member
    · exact closed.trimEnd_quoted
    · exact ih l member

/-- What ends in a blank does not end in the character that begins it. -/
theorem Lexer.Reads.open_of_trimmed {l : Lexeme} {rest : List Char} (h : Reads l rest)
    (shorter : trimEnd l.text ≠ l.text) : l.text.getLast? ≠ l.text.head? := by
  obtain ⟨q, cs, text, solid, -⟩ := h.next_eq
  rw [text] at shorter ⊢
  intro same
  refine shorter ((trimEnd_eq_self_iff _).mpr ?_)
  rw [same]
  simp [solid]

/-- The tokens of a formatted text are the normal forms of the tokens of its source. A
quoted text loses something only if it is the last token and no quote closes it. -/
theorem tokenize_format (o : Options) (source : List Char) :
    (tokenize (format o source)).map Token.toLexeme =
        (tokenize source).map (fun t => t.toLexeme.normal o.keywordCase) ∧
      (∀ l ∈ ((tokenize source).map Token.toLexeme).dropLast,
        l.kind = .quoted → trimEnd l.text = l.text) ∧
      ∀ l ∈ (tokenize source).map Token.toLexeme,
        l.kind = .quoted → trimEnd l.text ≠ l.text → l.text.getLast? ≠ l.text.head? := by
  have scans := scans_lexemes source
  refine ⟨?_, ?_, ?_⟩
  · rw [map_toLexeme_tokenize, lexemes_format, ← map_toLexeme_tokenize, List.map_map]
    rfl
  · rw [map_toLexeme_tokenize]
    exact whole_of_scans scans
  · rw [map_toLexeme_tokenize]
    intro l member _ shorter
    exact (scans.reads_of_mem l member).open_of_trimmed shorter

example : format {} "select 'a  ".toList = "SELECT 'a".toList := by decide +kernel

/-- Only the last options of a sequence of runs count, and the number of runs does not. -/
theorem reformat_last (source : List Char) :
    (∀ o o' : Options, format o' (format o source) = format o' source) ∧
      ∀ (os : List Options) (o : Options),
        (os ++ [o]).foldl (fun text o => format o text) source = format o source := by
  constructor
  · intro o o'
    exact format_format o' o source
  · intro os o
    induction os generalizing source with
    | nil => rfl
    | cons first os ih =>
      rw [List.cons_append, List.foldl_cons, ih (format first source), format_format]

end TidySql
