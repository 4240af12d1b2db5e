import TidySql.Proofs.Phrasing

/-! Where layout puts a phrase.
Between two phrases the buffer is a text that ends in no blank and a gap after it. The
state alone places the next phrase, and the gap and the placement fix what stands
before it, so the output is the phrases in order with one separator before each. -/
namespace TidySql
open Text Lexer

theorem Options.allBlank_margin (o : Options) (level : Nat) : allBlank (o.margin level) = true := by
  simp only [allBlank, margin, List.all_replicate]
  split
  · rfl
  · decide

namespace Layout

/-- What stands at the end of the buffer, which holds nothing else at the start. -/
inductive Gap where
  | start
  | tight
  | space
  | line
  deriving DecidableEq, Repr

/-- How a phrase is placed: at the start of a line, apart from what is before it, as the
gap before it says, or directly after it. A phrase that starts a line has a level. -/
inductive Placement where
  | line (level : Nat)
  | apart (level : Nat)
  | plain (level : Nat)
  | joined
  deriving DecidableEq, Repr

def Placement.level : Placement → Nat
  | line n | apart n | plain n => n
  | joined => 0

namespace Gap

def text : Gap → List Char
  | start | tight => []
  | space => [' ']
  | line => ['\n']

def startsLine : Gap → Bool
  | start | line => true
  | tight | space => false

/-- The gap after the line is broken. -/
def broken : Gap → Gap
  | start => start
  | _ => line

/-- What stands between the text and a phrase that is placed after the gap. -/
def before (o : Options) : Gap → Placement → List Char
  | start, p => o.margin p.level
  | line, p => '\n' :: o.margin p.level
  | _, .line n => '\n' :: o.margin n
  | _, .apart _ => [' ']
  | space, .plain _ => [' ']
  | tight, .plain _ => []
  | _, .joined => []

theorem margin_zero (o : Options) : o.margin 0 = [] := by
  simp [Options.margin]

theorem before_plain (o : Options) (g : Gap) (n : Nat) :
    g.before o (.plain n) = g.text ++ if g.startsLine then o.margin n else [] := by
  cases g <;> rfl

theorem before_line (o : Options) (g : Gap) (n : Nat) :
    g.before o (.line n) = g.broken.before o (.plain n) := by
  cases g <;> rfl

theorem before_apart (o : Options) (g : Gap) (n : Nat) :
    g.before o (.apart n) =
      g.before o .joined ++ if g.startsLine then o.margin n else [' '] := by
  cases g <;> simp [before, startsLine, Placement.level, margin_zero]

theorem allBlank_before (o : Options) (g : Gap) (p : Placement) :
    allBlank (g.before o p) = true := by
  have newline : ∀ n, allBlank ('\n' :: o.margin n) = true := by
    intro n
    rw [allBlank, List.all_cons, Bool.and_eq_true]
    exact ⟨by decide, o.allBlank_margin n⟩
  have one : allBlank [' '] = true := by decide
  cases g with
  | start => exact o.allBlank_margin p.level
  | line => exact newline p.level
  | tight =>
    cases p with
    | line n => exact newline n
    | apart => exact one
    | plain | joined => rfl
  | space =>
    cases p with
    | line n => exact newline n
    | apart | plain => exact one
    | joined => rfl

end Gap

namespace State

def placement (s : State) : Phrase → Placement
  | .compound _ => .line s.indent
  | .single l =>
    match l.kind with
    | .comment => .line s.indent
    | .openParen =>
      match Paren.after s.previous with
      | .inline => .joined
      | .block => .apart s.indent
    | .closeParen =>
      match s.parens.head?.getD .block with
      | .inline => .joined
      | .block => .line (s.indent - 1)
    | .comma | .semicolon => .joined
    | .word =>
      if Keyword.isClause (upper l.text) then .line s.indent
      else if Keyword.isConnective (upper l.text) ∧ s.clause.any Clause.breaksOnCondition then
        .line (s.indent + 1)
      else .plain s.indent
    | .operator | .quoted => .plain s.indent

/-- The gap that a phrase leaves after itself. -/
def trail (s : State) : Phrase → Gap
  | .compound _ => .space
  | .single l =>
    match l.kind with
    | .comment | .semicolon => .line
    | .openParen =>
      match Paren.after s.previous with
      | .inline => .tight
      | .block => .line
    | .comma => if s.clause.any Clause.breaksAfterComma then .line else .space
    | .closeParen | .word | .operator | .quoted => .space

/-- The buffer holds a text that ends in no blank, and then the gap. -/
structure Shows (s : State) (g : Gap) (body : List Char) : Prop where
  out : s.out.toList = body ++ g.text
  atLineStart : s.atLineStart = g.startsLine
  solid : trimEnd body = body
  start : g = .start ↔ body = []

theorem Shows.congr {s s' : State} {g : Gap} {body : List Char} (h : Shows s g body)
    (out : s'.out = s.out) (flag : s'.atLineStart = s.atLineStart) : Shows s' g body :=
  ⟨out ▸ h.out, flag ▸ h.atLineStart, h.solid, h.start⟩

theorem initial_shows : Shows {} .start [] := ⟨rfl, rfl, rfl, by simp⟩

section Shows

variable {s : State} {g : Gap} {body : List Char} (o : Options)

theorem isBlank_of_isPadding (c : Char) (h : Buffer.isPadding c = true) : isBlank c = true := by
  simp only [Buffer.isPadding, Bool.or_eq_true, beq_iff_eq] at h
  rcases h with rfl | rfl <;> decide

theorem dropEndWhile_isPadding {cs : List Char} (solid : trimEnd cs = cs) :
    dropEndWhile Buffer.isPadding cs = cs := by
  have last := List.rdropWhile_eq_self_iff.mp solid
  refine List.rdropWhile_eq_self_iff.mpr ?_
  intro nonempty padding
  exact last nonempty (isBlank_of_isPadding _ padding)

theorem Shows.nonempty (h : Shows s g body) (inside : g ≠ .start) : body ≠ [] :=
  fun empty => inside (h.start.mpr empty)

theorem Shows.toList_trimPadding (h : Shows s g body) :
    s.out.trimPadding.toList = body ++ g.before o .joined := by
  have kept := dropEndWhile_isPadding h.solid
  rw [Buffer.toList_trimPadding, h.out]
  cases g with
  | start | tight => simpa [Gap.text, Gap.before, Placement.level, Gap.margin_zero] using kept
  | space =>
    have dropped : dropEndWhile Buffer.isPadding (body ++ [' ']) =
        dropEndWhile Buffer.isPadding body := List.rdropWhile_concat_pos _ _ ' ' (by decide)
    rw [Gap.text, dropped, kept]
    exact (List.append_nil body).symm
  | line =>
    have stays : dropEndWhile Buffer.isPadding (body ++ ['\n']) = body ++ ['\n'] :=
      List.rdropWhile_concat_neg _ _ '\n' (by decide)
    rw [Gap.text, stays, Gap.before, Placement.level, Gap.margin_zero]

theorem Shows.attach (h : Shows s g body) (text : List Char) (after : Gap)
    (inside : after.startsLine = false) (solid : trimEnd text = text) (nonempty : text ≠ []) :
    Shows (s.attach (text ++ after.text)) after (body ++ g.before o .joined ++ text) where
  out := by simp [State.attach, h.toList_trimPadding o]
  atLineStart := inside.symm
  solid := trimEnd_append_solid _ solid nonempty
  start := by
    have other : after ≠ .start := by
      rintro rfl
      cases inside
    simp [nonempty, other]

theorem Shows.endsLine_trimPadding (h : Shows s g body) :
    s.out.trimPadding.endsLine = g.startsLine := by
  have kept := h.toList_trimPadding {}
  have last := (trimEnd_eq_self_iff body).mp h.solid
  have text : g ≠ .start → '\n' ∉ body.getLast? := by
    intro inside newline
    exact absurd (last '\n' newline) (by decide)
  rw [Bool.eq_iff_iff, Buffer.endsLine_iff, kept]
  cases g with
  | start => simp [h.start.mp rfl, Gap.before, Placement.level, Gap.margin_zero, Gap.startsLine]
  | line => simp [Gap.before, Placement.level, Gap.margin_zero, Gap.startsLine]
  | tight | space => simpa [Gap.before, Gap.startsLine, h.nonempty] using text

theorem Shows.breakLine (h : Shows s g body) : Shows s.breakLine g.broken body where
  out := by
    have kept := h.toList_trimPadding {}
    change s.out.breakLine.toList = _
    rw [Buffer.breakLine, h.endsLine_trimPadding]
    cases g with
    | start | line =>
      change s.out.trimPadding.toList = _
      rw [kept]
      simp [Gap.before, Placement.level, Gap.margin_zero, Gap.broken, Gap.text]
    | tight | space =>
      change (s.out.trimPadding.append ['\n']).toList = _
      rw [Buffer.toList_append, kept]
      simp [Gap.before, Gap.broken, Gap.text]
  atLineStart := by cases g <;> rfl
  solid := h.solid
  start := by cases g <;> simpa [Gap.broken] using h.start

theorem Shows.write (h : Shows s g body) {text : List Char} (level : Nat)
    (solid : trimEnd text = text) (nonempty : text ≠ []) :
    Shows (s.write o text level) .space (body ++ g.before o (.plain level) ++ text) where
  out := by
    rw [toList_out_write, h.out, h.atLineStart, Gap.before_plain]
    simp [Gap.text]
  atLineStart := rfl
  solid := trimEnd_append_solid _ solid nonempty
  start := by simp [nonempty]

theorem Shows.writeLine (h : Shows s g body) {text : List Char} (level : Nat)
    (solid : trimEnd text = text) (nonempty : text ≠ []) :
    Shows (s.breakLine.write o text level) .space (body ++ g.before o (.line level) ++ text) := by
  rw [Gap.before_line]
  exact h.breakLine.write o level solid nonempty

theorem Shows.openParen (h : Shows s g body) : Shows (s.openParen o)
    (s.trail (.single ⟨.openParen, ['(']⟩))
    (body ++ g.before o (s.placement (.single ⟨.openParen, ['(']⟩)) ++ ['(']) := by
  have opened : Shows { s with parens := Paren.after s.previous :: s.parens, previous := [] } g body :=
    h.congr rfl rfl
  cases style : Paren.after s.previous with
  | inline =>
    simp only [State.openParen, placement, trail, style] at opened ⊢
    exact opened.attach o ['('] .tight rfl (by decide) (by decide)
  | block =>
    simp only [State.openParen, placement, trail, style] at opened ⊢
    have solid : ∀ lead, trimEnd (lead ++ ['(']) = lead ++ ['('] :=
      fun lead => trimEnd_append_solid lead (by decide) (by decide)
    have written := opened.attach o _ .tight rfl
      (solid (if g.startsLine then o.margin s.indent else [' '])) (by simp)
    rw [Gap.before_apart, h.atLineStart]
    simp only [Gap.text, List.append_nil, ← List.append_assoc] at written ⊢
    exact Shows.breakLine (g := .tight) (written.congr rfl rfl)

theorem Shows.closeParen (h : Shows s g body) : Shows (s.closeParen o) .space
    (body ++ g.before o (s.placement (.single ⟨.closeParen, [')']⟩)) ++ [')']) := by
  have closed : Shows { s with parens := s.parens.tail, previous := [] } g body := h.congr rfl rfl
  cases style : s.parens.head?.getD .block with
  | inline =>
    simp only [State.closeParen, placement, style]
    exact closed.attach o [')'] .space rfl (by decide) (by decide)
  | block =>
    simp only [State.closeParen, placement, style]
    have outer : Shows
        { s with parens := s.parens.tail, previous := [], indent := s.indent - 1 } g body :=
      closed.congr rfl rfl
    exact outer.writeLine o (s.indent - 1) (by decide) (by decide)

theorem Shows.comma (h : Shows s g body) : Shows s.comma (s.trail (.single ⟨.comma, [',']⟩))
    (body ++ g.before o .joined ++ [',']) := by
  have plain : Shows { s with previous := [] } g body := h.congr rfl rfl
  by_cases breaks : s.clause.any Clause.breaksAfterComma = true
  · simp only [State.comma, trail, if_pos breaks]
    exact (plain.attach o [','] .tight rfl (by decide) (by decide)).breakLine
  · simp only [State.comma, trail, if_neg breaks]
    exact plain.attach o [','] .space rfl (by decide) (by decide)

theorem Shows.semicolon (h : Shows s g body) : Shows s.semicolon .line
    (body ++ g.before o .joined ++ [';']) :=
  (h.attach o [';'] .tight rfl (by decide) (by decide)).breakLine.congr rfl rfl

theorem Shows.comment (h : Shows s g body) {cs : List Char} (solid : trimEnd (trim cs) = trim cs)
    (nonempty : trim cs ≠ []) :
    Shows (s.comment o cs) .line (body ++ g.before o (.line s.indent) ++ trim cs) :=
  (h.writeLine o s.indent solid nonempty).breakLine.congr rfl rfl

theorem Shows.word (h : Shows s g body) {cs : List Char} (read : Reads ⟨.word, cs⟩ []) :
    Shows (s.word o cs) .space (body ++ g.before o (s.placement (.single ⟨.word, cs⟩)) ++
      (Lexeme.normal o.keywordCase ⟨.word, cs⟩).text) := by
  have solid := read.trimEnd_normal o.keywordCase
  have nonempty := (read.normal o.keywordCase).text_ne_nil
  have written : Keyword.isReserved (upper cs) = true →
      (Lexeme.normal o.keywordCase ⟨.word, cs⟩).text = o.keywordCase.apply (upper cs) :=
    fun reserved => by rw [Lexeme.normal_reserved _ cs reserved]
  by_cases clause : Keyword.isClause (upper cs) = true
  · rw [written (read.isReserved_of_isClause clause)] at solid nonempty ⊢
    simp only [State.word, placement, if_pos clause]
    exact (h.writeLine o s.indent solid nonempty).congr rfl rfl
  · by_cases joins : Keyword.isConnective (upper cs) = true ∧
        s.clause.any Clause.breaksOnCondition = true
    · rw [written (Keyword.isReserved_of_isConnective _ joins.1)] at solid nonempty ⊢
      simp only [State.word, placement, if_neg clause, if_pos joins]
      exact (h.writeLine o (s.indent + 1) solid nonempty).congr rfl rfl
    · simp only [State.word, placement, if_neg clause, if_neg joins]
      by_cases reserved : Keyword.isReserved (upper cs) = true
      · rw [written reserved] at solid nonempty ⊢
        rw [if_pos reserved]
        exact (h.write o s.indent solid nonempty).congr rfl rfl
      · rw [Lexeme.normal_name _ cs (by simpa using reserved)] at solid nonempty ⊢
        rw [if_neg reserved]
        exact (h.write o s.indent solid nonempty).congr rfl rfl

end Shows

end State
end Layout

namespace Phrase

/-- What layout writes for a phrase. -/
def text (k : KeywordCase) : Phrase → List Char
  | compound c => k.apply c.text
  | single l => (l.normal k).text

/-- The phrase comes from a text, and no quoted text of it loses blanks. -/
def Ready : Phrase → Prop
  | compound c => c ∈ Compound.all
  | single l => Reads l [] ∧ (l.kind = .quoted → trimEnd l.text = l.text)

theorem compound_solid : ∀ c ∈ Compound.all, ∀ k ∈ [KeywordCase.upper, KeywordCase.lower],
    trimEnd (k.apply c.text) = k.apply c.text ∧ k.apply c.text ≠ [] := by decide

end Phrase

namespace Layout
namespace State

theorem step_shows (o : Options) {s : State} {g : Gap} {body : List Char} (h : Shows s g body)
    (p : Phrase) (ready : p.Ready) : Shows (s.step o p) (s.trail p)
      (body ++ g.before o (s.placement p) ++ p.text o.keywordCase) := by
  cases p with
  | compound c =>
    have listed : o.keywordCase ∈ [KeywordCase.upper, KeywordCase.lower] := by
      cases o.keywordCase <;> decide
    have text := Phrase.compound_solid c ready _ listed
    exact (h.writeLine o s.indent text.1 text.2).congr rfl rfl
  | single l =>
    obtain ⟨read, whole⟩ := ready
    have solid := read.trimEnd_normal o.keywordCase
    have nonempty := (read.normal o.keywordCase).text_ne_nil
    -- The rule that reads the lexeme tells its text, which the operation writes as it stands.
    cases read with
    | @quoted q cs _ mark body =>
      have same : trimEnd (q :: cs) = q :: cs := whole rfl
      change Shows _ _ (_ ++ trimEnd (q :: cs))
      rw [same]
      exact (h.write o s.indent same (by simp)).congr rfl rfl
    | line => exact h.comment o solid nonempty
    | block => exact h.comment o solid nonempty
    | punctuation mark =>
      rcases punctuation?_cases mark with ⟨rfl, rfl⟩ | ⟨rfl, rfl⟩ | ⟨rfl, rfl⟩ | ⟨rfl, rfl⟩
      · exact h.openParen o
      · exact h.closeParen o
      · exact h.comma o
      · exact h.semicolon o
    | pair => exact (h.write o s.indent solid nonempty).congr rfl rfl
    | operator => exact (h.write o s.indent solid nonempty).congr rfl rfl
    | word body stop => exact h.word o (.word body stop)

end State

/-- The text of the phrases from a state on, each after what stands before it. -/
def spell (o : Options) : Gap → State → List Phrase → List Char
  | _, _, [] => []
  | g, s, p :: ps =>
    g.before o (s.placement p) ++ p.text o.keywordCase ++ spell o (s.trail p) (s.step o p) ps

theorem run_shows (o : Options) {s : State} {g : Gap} {body : List Char} (h : s.Shows g body)
    (ps : List Phrase) (ready : ∀ p ∈ ps, p.Ready) :
    ∃ g', (ps.foldl (State.step o) s).Shows g' (body ++ spell o g s ps) := by
  induction ps generalizing s g body with
  | nil => exact ⟨g, by simpa [spell] using h⟩
  | cons p ps ih =>
    have first := State.step_shows o h p (ready p List.mem_cons_self)
    obtain ⟨g', last⟩ := ih first fun q member => ready q (List.mem_cons_of_mem p member)
    exact ⟨g', by simpa [spell] using last⟩

end Layout
end TidySql
