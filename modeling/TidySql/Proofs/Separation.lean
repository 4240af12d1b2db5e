import TidySql.Proofs.Context
import TidySql.Proofs.RoundTrip

/-! The separators that layout writes.
After each phrase the context is told by the phrases so far, and with it the gap after the
phrase and the placement of the next one. So the formatted text is the phrases of its
source, with one separator between each two of them. -/
namespace TidySql
open Text Lexer

namespace Layout
open Phrase

theorem openParens_eq_drop (n : Nat) (past : List Phrase) :
    openParens n past = (openParens 0 past).drop n := by
  induction past generalizing n with
  | nil => simp [openParens]
  | cons p past ih =>
    by_cases closes : p.isKind .closeParen = true
    · have inner := ih (n + 1)
      have first := ih 1
      simp only [openParens, if_pos closes, inner, first, List.drop_drop]
      rw [Nat.add_comm]
    · by_cases opens : p.isKind .openParen = true
      · cases n with
        | zero => simp
        | succ n => simp only [openParens, if_neg closes, if_pos opens, List.drop_succ_cons, ih n]
      · simp only [openParens, if_neg closes, if_neg opens]
        exact ih n

theorem isClause_of_isConnective (w : List Char) (h : Keyword.isConnective w = true) :
    Keyword.isClause w = false := by
  simp only [Keyword.isConnective, Bool.or_eq_true, beq_iff_eq] at h
  rcases h with rfl | rfl <;> decide

theorem eq_single_of_isKind {p : Phrase} {k : Kind} (h : p.isKind k = true) :
    ∃ cs, p = .single ⟨k, cs⟩ := by
  cases p with
  | compound => cases h
  | single l =>
    obtain ⟨kind, cs⟩ := l
    obtain rfl : kind = k := by simpa [isKind] using h
    exact ⟨cs, rfl⟩

theorem not_closing_of_opening {p : Phrase} (opens : p.isKind .openParen = true) :
    p.isKind .closeParen = false := by
  obtain ⟨cs, rfl⟩ := eq_single_of_isKind opens
  rfl

namespace Context

/-- The context after some phrases, the nearest first. -/
def after (past : List Phrase) : Context := past.foldr (fun p c => c.step p) {}

theorem previous_after (past : List Phrase) :
    (after past).previous = past.head?.elim [] lastWord := by
  cases past <;> rfl

theorem opening_eq (past : List Phrase) : Paren.after (after past).previous = opening past := by
  rw [previous_after, opening]

theorem clause_after (past : List Phrase) : (after past).clause = clauseAfter past := by
  induction past with
  | nil => rfl
  | cons p past ih =>
    change ((after past).step p).clause = _
    by_cases ends : p.isKind .semicolon = true
    · simp [step, clauseAfter, ends]
    · have kept : ((p :: past).takeWhile fun p => !p.isKind .semicolon) =
          p :: past.takeWhile fun p => !p.isKind .semicolon :=
        List.takeWhile_cons_of_pos (by simpa using ends)
      simp only [step, if_neg ends, ih]
      simp only [clauseAfter, kept, List.findSome?_cons]
      cases p.keyword? <;> rfl

theorem parens_after (past : List Phrase) : (after past).parens = openParens 0 past := by
  induction past with
  | nil => rfl
  | cons p past ih =>
    change ((after past).step p).parens = _
    simp only [step, ih, opening_eq]
    by_cases opens : p.isKind .openParen = true
    · simp [openParens, opens, not_closing_of_opening opens]
    · by_cases closes : p.isKind .closeParen = true
      · rw [if_neg opens, if_pos closes, openParens, if_pos closes, openParens_eq_drop (0 + 1),
          List.drop_one]
      · rw [if_neg opens, if_neg closes, openParens, if_neg closes, if_neg opens]

/-- The level counts the open blocks. A closing parenthesis that would take it below zero
closes nothing. -/
theorem indent_after (past : List Phrase) :
    (after past).indent = (after past).parens.count .block := by
  induction past with
  | nil => rfl
  | cons p past ih =>
    change ((after past).step p).indent = ((after past).step p).parens.count .block
    generalize after past = c at ih
    simp only [step]
    by_cases opens : p.isKind .openParen = true
    · simp only [opens, not_closing_of_opening opens, ↓reduceIte]
      cases style : Paren.after c.previous <;> simp [ih]
    · by_cases closes : p.isKind .closeParen = true
      · simp only [opens, closes, ↓reduceIte]
        cases parens : c.parens with
        | nil => simp [ih, parens]
        | cons paren rest => cases paren <;> simp [ih, parens]
      · simp [opens, closes, ih]

end Context

namespace State

variable {s : State} {past : List Phrase}

/- A phrase of a known kind is judged by unfolding the tests of the rule. -/
attribute [local simp] startsLine keyword? level isAttached isOpening isClosing isCondition
  isConnective isKind

/-- What a state that has written some phrases knows is told by them. -/
theorem fields_of_context (h : s.context = Context.after past) :
    s.clause = clauseAfter past ∧ Paren.after s.previous = opening past ∧
      s.parens.head?.getD .block = closing past ∧ s.indent = (openParens 0 past).count .block := by
  have parens := Context.parens_after past
  have indent := Context.indent_after past
  have opens := Context.opening_eq past
  rw [← Context.clause_after, ← opens, closing, ← parens, ← indent, ← h]
  exact ⟨rfl, rfl, rfl, rfl⟩

/-- The gap after a phrase is told by the phrases before it. -/
theorem trail_eq (h : s.context = Context.after past) (u : Phrase) : s.trail u =
    if endsLine past u then .line else if isOpening .inline past u then .tight else .space := by
  obtain ⟨clause, opens, -, -⟩ := fields_of_context h
  cases u with
  | compound => rfl
  | single l =>
    obtain ⟨kind, cs⟩ := l
    cases kind with
    | openParen =>
      simp only [trail, opens]
      cases style : opening past <;> simp [endsLine, style]
    | comma => simp [trail, clause, endsLine]
    | _ => rfl

theorem placement_word (h : s.context = Context.after past) (cs : List Char) :
    s.placement (.single ⟨.word, cs⟩) =
      if startsLine past (.single ⟨.word, cs⟩) then .line (level past (.single ⟨.word, cs⟩))
      else .plain (level past (.single ⟨.word, cs⟩)) := by
  obtain ⟨clause, -, -, depth⟩ := fields_of_context h
  simp only [placement, clause, depth]
  by_cases begins : Keyword.isClause (upper cs) = true
  · have plain : Keyword.isConnective (upper cs) = false := by
      rw [Bool.eq_false_iff]
      intro connective
      exact Bool.false_ne_true ((isClause_of_isConnective _ connective).symm.trans begins)
    simp [begins, plain]
  · by_cases breaks : Keyword.isConnective (upper cs) = true ∧
        (clauseAfter past).any Clause.breaksOnCondition = true
    · simp [begins, breaks]
    · rw [if_neg begins, if_neg breaks]
      simp [begins, breaks]

/-- The placement of a phrase is told by the phrases before it. -/
theorem placement_eq (h : s.context = Context.after past) (v : Phrase) : s.placement v =
    if startsLine past v then .line (level past v)
    else if isAttached past v then .joined
    else if isOpening .block past v then .apart (level past v)
    else .plain (level past v) := by
  obtain ⟨clause, opens, closes, depth⟩ := fields_of_context h
  cases v with
  | compound => simp [placement, depth]
  | single l =>
    obtain ⟨kind, cs⟩ := l
    cases kind with
    | openParen =>
      simp only [placement, opens]
      cases style : opening past <;> simp [depth, style]
    | closeParen =>
      simp only [placement, closes]
      cases style : closing past <;> simp [depth, style]
    | word =>
      rw [placement_word h]
      simp
    | _ => simp [placement, depth]

end State

/-- The gap after a phrase and the placement of the next one make the separator. -/
theorem before_eq_separator (o : Options) {s t : State} {past : List Phrase} {u : Phrase}
    (before : s.context = Context.after past) (between : t.context = Context.after (u :: past))
    (v : Phrase) : (s.trail u).before o (t.placement v) = separator o past u v := by
  rw [State.trail_eq before, State.placement_eq between, separator]
  by_cases starts : startsLine (u :: past) v = true
  · rw [if_pos starts]
    by_cases ends : endsLine past u = true
    · simp [starts, ends, Gap.before, Placement.level]
    · by_cases opens : isOpening .inline past u = true <;> simp [starts, ends, opens, Gap.before]
  · rw [if_neg starts]
    by_cases attached : isAttached (u :: past) v = true
    · have flush : level (u :: past) v = 0 := by simp [level, attached]
      by_cases ends : endsLine past u = true
      · simp [attached, ends, flush, Gap.before, Placement.level]
      · by_cases opens : isOpening .inline past u = true <;>
          simp [starts, attached, ends, opens, Gap.before]
    · rw [if_neg attached]
      by_cases block : isOpening .block (u :: past) v = true
      · by_cases ends : endsLine past u = true
        · simp [block, ends, Gap.before, Placement.level]
        · by_cases opens : isOpening .inline past u = true <;>
            simp [starts, attached, block, ends, opens, Gap.before]
      · by_cases ends : endsLine past u = true
        · simp [block, ends, Gap.before, Placement.level]
        · by_cases opens : isOpening .inline past u = true <;>
            simp [starts, attached, block, ends, opens, Gap.before]

/-- A text is its phrases, each after its separator. -/
def separated (o : Options) : List Phrase → List Phrase → List Char
  | _, [] => []
  | past, v :: ps =>
    separatorAfter o past v ++ v.text o.keywordCase ++ separated o (v :: past) ps

theorem spell_eq_separated (o : Options) {s t : State} {u : Phrase} {past : List Phrase}
    (before : s.context = Context.after past) (between : t.context = Context.after (u :: past))
    (ps : List Phrase) : spell o (s.trail u) t ps = separated o (u :: past) ps := by
  induction ps generalizing s t u past with
  | nil => rfl
  | cons v ps ih =>
    have next : (t.step o v).context = Context.after (v :: u :: past) := by
      rw [State.context_step, between]
      rfl
    rw [spell, separated, before_eq_separator o before between, ih between next]
    rfl

theorem spell_initial (o : Options) (ps : List Phrase) :
    spell o .start {} ps = separated o [] ps := by
  cases ps with
  | nil => rfl
  | cons p ps =>
    have first : ({} : State).context = Context.after [] := rfl
    have next : (({} : State).step o p).context = Context.after [p] := State.context_step o {} p
    rw [spell, separated, Gap.before, level_placement_initial, Gap.margin_zero,
      spell_eq_separated o first next]
    rfl

end Layout

/-- The formatted text of a source is its phrases with the separators between them, and each
phrase stands there as it is but for its letter case and the blanks around it. A quoted
text loses blanks only if it is the last token and no quote closes it. -/
theorem format_eq_separated (o : Options) (source : List Char) :
    format o source =
        Layout.separated o [] (Phrase.group ((tokenize source).map Token.toLexeme)) ∧
      (∀ l ∈ ((tokenize source).map Token.toLexeme).dropLast,
        l.kind = .quoted → trimEnd l.text = l.text) ∧
      ∀ l ∈ (tokenize source).map Token.toLexeme,
        l.kind = .quoted → trimEnd l.text ≠ l.text → l.text.getLast? ≠ l.text.head? := by
  have scans := scans_lexemes source
  rw [map_toLexeme_tokenize]
  refine ⟨?_, whole_of_scans scans, ?_⟩
  · rw [format_eq_spell_group, Layout.spell_initial]
  · intro l member _ shorter
    exact (scans.reads_of_mem l member).open_of_trimmed shorter

end TidySql
