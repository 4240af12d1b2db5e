import TidySql.Layout.Separator
import TidySql.Proofs.Spelling

/-! What layout knows besides the text that it has written.
The context is all that places a phrase, and a step changes it in a way that its text
has no part in. So what is spelled from a state on depends on the context of the state. -/
namespace TidySql
open Text Lexer

namespace Phrase

variable (k : KeywordCase)

theorem text_normal (p : Phrase) : (p.normal k).text k = p.text k := by
  cases p with
  | compound => rfl
  | single l => exact congrArg Lexeme.text (Lexeme.normal_normal k k l)

theorem isKind_normal (p : Phrase) (kind : Kind) : (p.normal k).isKind kind = p.isKind kind := by
  cases p with
  | compound => rfl
  | single l => simp [normal, isKind]

theorem lastWord_normal (p : Phrase) : (p.normal k).lastWord = p.lastWord := by
  cases p with
  | compound => rfl
  | single l =>
    obtain ⟨kind, cs⟩ := l
    by_cases word : kind = .word
    · subst kind
      simpa [normal, lastWord] using Lexeme.upper_normal k cs
    · simp [normal, lastWord, word]

theorem keyword?_normal (p : Phrase) : (p.normal k).keyword? = p.keyword? := by
  cases p with
  | compound => rfl
  | single l =>
    obtain ⟨kind, cs⟩ := l
    by_cases word : kind = .word
    · subst kind
      simp only [normal, keyword?, Lexeme.kind_normal, Lexeme.upper_normal]
    · simp [normal, keyword?, word]

end Phrase

namespace Layout

@[ext]
structure Context where
  indent : Nat := 0
  clause : Option Clause := none
  previous : List Char := []
  parens : List Paren := []
  deriving DecidableEq, Repr

namespace Context

def step (c : Context) (p : Phrase) : Context where
  previous := p.lastWord
  clause :=
    if p.isKind .semicolon then none
    else match p.keyword? with
      | some word => some (Clause.ofKeyword word)
      | none => c.clause
  parens :=
    if p.isKind .openParen then Paren.after c.previous :: c.parens
    else if p.isKind .closeParen then c.parens.tail
    else c.parens
  indent :=
    if p.isKind .openParen && Paren.after c.previous == .block then c.indent + 1
    else if p.isKind .closeParen && c.parens.head?.getD .block == .block then c.indent - 1
    else c.indent

theorem step_normal (c : Context) (k : KeywordCase) (p : Phrase) :
    c.step (p.normal k) = c.step p := by
  have word : (p.normal k).lastWord = p.lastWord := Phrase.lastWord_normal k p
  have keyword : (p.normal k).keyword? = p.keyword? := Phrase.keyword?_normal k p
  have kind : ∀ kind, (p.normal k).isKind kind = p.isKind kind := Phrase.isKind_normal k p
  simp only [step, word, keyword, kind]

end Context

namespace State

def context (s : State) : Context := ⟨s.indent, s.clause, s.previous, s.parens⟩

theorem context_word (o : Options) (cs : List Char) (s : State) :
    (s.word o cs).context = s.context.step (.single ⟨.word, cs⟩) := by
  have keyword : (Phrase.single ⟨.word, cs⟩).keyword? =
      if Keyword.isClause (upper cs) = true then some (upper cs) else none := by
    simp [Phrase.keyword?]
  by_cases clause : Keyword.isClause (upper cs) = true
  · rw [if_pos clause] at keyword
    simp only [word, if_pos clause, Context.step, keyword]
    rfl
  · rw [if_neg clause] at keyword
    simp only [word, if_neg clause, Context.step, keyword]
    split
    · rfl
    · split <;> rfl

/-- A step changes the context as the context alone says. -/
theorem context_step (o : Options) (s : State) (p : Phrase) :
    (s.step o p).context = s.context.step p := by
  cases p with
  | compound => rfl
  | single l =>
    obtain ⟨kind, cs⟩ := l
    cases kind with
    | openParen =>
      have opens : (s.step o (.single ⟨.openParen, cs⟩)) = s.openParen o := rfl
      rw [opens, openParen]
      cases style : Paren.after s.previous <;>
        simp [context, Context.step, Phrase.isKind, Phrase.lastWord, Phrase.keyword?, style, attach,
          breakLine]
    | closeParen =>
      have closes : (s.step o (.single ⟨.closeParen, cs⟩)) = s.closeParen o := rfl
      rw [closes, closeParen]
      cases style : s.parens.head?.getD .block <;>
        simp [context, Context.step, Phrase.isKind, Phrase.lastWord, Phrase.keyword?, style, attach,
          breakLine, write]
    | comma =>
      have lists : (s.step o (.single ⟨.comma, cs⟩)) = s.comma := rfl
      rw [lists, comma]
      split <;> rfl
    | word => exact context_word o cs s
    | _ => rfl

theorem placement_congr {s t : State} (same : s.context = t.context) (p : Phrase) :
    s.placement p = t.placement p := by
  obtain ⟨indent, clause, previous, parens⟩ := Context.mk.inj same
  simp only [placement, indent, clause, previous, parens]

theorem trail_congr {s t : State} (same : s.context = t.context) (p : Phrase) :
    s.trail p = t.trail p := by
  obtain ⟨-, clause, previous, -⟩ := Context.mk.inj same
  simp only [trail, clause, previous]

theorem placement_normal (s : State) (k : KeywordCase) (p : Phrase) :
    s.placement (p.normal k) = s.placement p := by
  cases p with
  | compound => rfl
  | single l =>
    obtain ⟨kind, cs⟩ := l
    cases kind with
    | word =>
      have same := Lexeme.upper_normal k cs
      simp only [Phrase.normal, placement, Lexeme.kind_normal, same]
    | _ => rfl

theorem trail_normal (s : State) (k : KeywordCase) (p : Phrase) :
    s.trail (p.normal k) = s.trail p := by
  cases p with
  | compound => rfl
  | single l => simp only [Phrase.normal, trail, Lexeme.kind_normal]

end State

/-- What is spelled depends on the context alone. -/
theorem spell_congr (o : Options) (g : Gap) {s t : State} (same : s.context = t.context)
    (ps : List Phrase) : spell o g s ps = spell o g t ps := by
  induction ps generalizing g s t with
  | nil => rfl
  | cons p ps ih =>
    have after : (s.step o p).context = (t.step o p).context := by
      rw [State.context_step, State.context_step, same]
    rw [spell, spell, State.placement_congr same, State.trail_congr same, ih _ after]

/-- Phrases in normal form are spelled as the phrases. -/
theorem spell_map_normal (o : Options) (g : Gap) (s : State) (ps : List Phrase) :
    spell o g s (ps.map (Phrase.normal o.keywordCase)) = spell o g s ps := by
  induction ps generalizing g s with
  | nil => rfl
  | cons p ps ih =>
    have after : (s.step o (p.normal o.keywordCase)).context = (s.step o p).context := by
      rw [State.context_step, State.context_step, Context.step_normal]
    rw [List.map_cons, spell, spell, State.placement_normal, State.trail_normal,
      Phrase.text_normal, spell_congr o _ after, ih]

end Layout

/-- The formatted text of a source is its phrases, spelled out. -/
theorem format_eq_spell_group (o : Options) (source : List Char) :
    format o source = Layout.spell o .start {} (Phrase.group (lexemes source)) := by
  rw [format_eq, Layout.format_eq_spell o (scans_lexemes source), Phrase.group_map_normal,
    Layout.spell_map_normal]

end TidySql
