import TidySql.Proofs.Places

/-! The margins of the formatted text.
Outside of quoted texts and comments a line starts after a separator, and its first phrase says
how deep. All other blanks there are single spaces between two characters. -/
namespace TidySql
open Text Lexer

namespace Layout
open Phrase

/-- The number of blocks that are open after the phrases. -/
def depth (past : List Phrase) : Nat := (openParens 0 past).count .block

/-- The level of a line that starts with the phrase. -/
def lineLevel (past : List Phrase) (v : Phrase) : Nat :=
  if isCondition past v then depth past + 1
  else if isClosing .block past v then depth (v :: past)
  else if v.isKind .comma || v.isKind .semicolon || isClosing .inline past v then 0
  else depth past

theorem indent_run (o : Options) (past : List Phrase) :
    (run o past.reverse).indent = depth past := by
  have known : (run o past.reverse).context.indent = depth past := by
    rw [context_run, Context.indent_after, Context.parens_after]
    rfl
  exact known

theorem openParens_of_closing {past : List Phrase} {v : Phrase}
    (closes : v.isKind .closeParen = true) :
    openParens 0 (v :: past) = (openParens 0 past).tail := by
  rw [openParens, if_pos closes, openParens_eq_drop, List.drop_one]

/-- A block that is closed was open. A parenthesis that closes nothing leaves the depth at 0. -/
theorem depth_of_isClosing {past : List Phrase} {v : Phrase}
    (closes : isClosing .block past v = true) :
    depth past = depth (v :: past) + if openParens 0 past = [] then 0 else 1 := by
  simp only [isClosing, closing, Bool.and_eq_true, beq_iff_eq] at closes
  rw [depth, depth, openParens_of_closing closes.1]
  cases parens : openParens 0 past with
  | nil => rfl
  | cons paren outer =>
    rw [parens] at closes
    obtain rfl : paren = .block := closes.2
    simp

theorem isConnective_of_isCondition {past : List Phrase} {v : Phrase}
    (condition : isCondition past v = true) :
    ∃ cs, v = .single ⟨.word, cs⟩ ∧ Keyword.isConnective (upper cs) = true := by
  simp only [isCondition, Bool.and_eq_true] at condition
  cases v with
  | compound => cases condition.1
  | single l =>
    obtain ⟨kind, cs⟩ := l
    simp only [isConnective, Bool.and_eq_true, beq_iff_eq] at condition
    obtain ⟨rfl, connective⟩ := condition.1
    exact ⟨cs, rfl, connective⟩

theorem level_eq_lineLevel {past : List Phrase} {v : Phrase}
    (other : isOpening .inline past v = false) : level past v = lineLevel past v := by
  by_cases condition : isCondition past v = true
  · obtain ⟨cs, rfl, -⟩ := isConnective_of_isCondition condition
    simp [level, lineLevel, condition, isAttached, isOpening, isClosing, isKind, depth]
  · by_cases closes : isClosing .block past v = true
    · have inner : depth past - 1 = depth (v :: past) := by
        have step := depth_of_isClosing closes
        by_cases stray : openParens 0 past = []
        · have none : depth past = 0 := by simp [depth, stray]
          rw [if_pos stray] at step
          omega
        · rw [if_neg stray] at step
          omega
      have alone : isAttached past v = false := by
        simp only [isClosing, Bool.and_eq_true, beq_iff_eq] at closes
        obtain ⟨cs, rfl⟩ := eq_single_of_isKind closes.1
        simp [isAttached, isOpening, isClosing, isKind, closes.2]
      simp only [level, lineLevel, if_neg condition, closes, alone]
      exact inner
    · simp only [level, lineLevel, if_neg condition, if_neg closes, isAttached, other,
        Bool.or_false]
      rfl

theorem lineLevel_nil (v : Phrase) : lineLevel [] v = 0 := by
  have plain : isCondition [] v = false := by simp [isCondition, clauseAfter]
  have zero : depth [v] = 0 ∨ isClosing .block [] v = false := by
    by_cases closes : isClosing .block [] v = true
    · have step := depth_of_isClosing closes
      simp only [openParens, if_true] at step
      exact .inl step.symm
    · exact .inr (by simpa using closes)
  have none : depth [] = 0 := rfl
  rcases zero with zero | other
  · simp [lineLevel, plain, zero, none]
  · simp [lineLevel, plain, other, none]

/-- Only a word comes right before an inline group, and a word does not end its line. -/
theorem not_opening_of_break {past : List Phrase} {u v : Phrase}
    (breaks : (endsLine past u || startsLine (u :: past) v) = true) :
    isOpening .inline (u :: past) v = false := by
  rw [Bool.eq_false_iff]
  intro opens
  simp only [isOpening, Bool.and_eq_true, beq_iff_eq] at opens
  have starts : startsLine (u :: past) v = false := by
    obtain ⟨cs, rfl⟩ := eq_single_of_isKind opens.1
    rfl
  have ends : endsLine past u = false := by
    cases u with
    | compound => simp [endsLine, isOpening, isKind]
    | single l =>
      by_cases word : l.kind = .word
      · simp [endsLine, isOpening, isKind, word]
      · simp [opening, lastWord, word, Paren.after, Keyword.opensInline] at opens
  rw [starts, ends] at breaks
  cases breaks

theorem separator_cases (o : Options) (past : List Phrase) (u v : Phrase) :
    separator o past u v = '\n' :: o.margin (lineLevel (u :: past) v) ∨
      separator o past u v = [] ∨ separator o past u v = [' '] := by
  by_cases breaks : (endsLine past u || startsLine (u :: past) v) = true
  · left
    rw [separator, if_pos breaks, level_eq_lineLevel (not_opening_of_break breaks)]
  · right
    rw [separator, if_neg breaks]
    split
    · exact .inl rfl
    · exact .inr rfl

end Layout

open Layout

section
variable {o : Options} {source before after : List Char} {c : Char}

/-- A character of the formatted text is in the separator before a phrase or in the phrase. -/
theorem exists_place (cut : format o source = before ++ c :: after) :
    ∃ past v rest x y, phrases source = past.reverse ++ v :: rest ∧
      ((separatorAfter o past v = x ++ c :: y ∧ before = separated o [] past.reverse ++ x ∧
          after = y ++ v.text o.keywordCase ++ separated o (v :: past) rest) ∨
        v.text o.keywordCase = x ++ c :: y ∧
          before = separated o [] past.reverse ++ separatorAfter o past v ++ x ∧
          after = y ++ separated o (v :: past) rest) := by
  rw [format_eq_separated_phrases] at cut
  obtain ⟨qs, v, rest, x, y, split, lead, block, last⟩ := exists_block o cut
  rw [List.append_nil] at block last
  rcases append_eq_append_cons block with ⟨z, here, text⟩ | ⟨z, sep, tail⟩
  · refine ⟨qs.reverse, v, rest, z, y, by simpa using split, .inr ⟨text, ?_, last⟩⟩
    rw [lead, here]
    simp
  · refine ⟨qs.reverse, v, rest, x, z, by simpa using split, .inl ⟨sep, by simpa using lead, ?_⟩⟩
    rw [last, tail]

theorem solid_end {u : Phrase} {past rest : List Phrase}
    (split : phrases source = (u :: past).reverse ++ rest) :
    ∃ d ∈ (separated o [] (u :: past).reverse).getLast?, isBlank d = false := by
  have member : u ∈ phrases source := by simp [split]
  obtain ⟨ends, d, ds, starts, -⟩ := Phrase.solid_of_mem member o.keywordCase
  have nonempty : u.text o.keywordCase ≠ [] := by simp [starts]
  rw [trimEnd_eq_self_iff, List.getLast?_eq_some_getLast nonempty] at ends
  refine ⟨_, ?_, ends _ rfl⟩
  rw [List.reverse_cons, separated_append, separated, separated, List.append_nil]
  simp [List.getLast?_append, List.getLast?_eq_some_getLast nonempty]

/-- A line break outside of quoted texts and comments is the first character of a separator. -/
theorem separator_of_break (cut : format o source = before ++ '\n' :: after)
    (outside : ¬ InsideVerbatim (format o source) (byteLength (before ++ ['\n']))) :
    ∃ u past v rest, phrases source = (u :: past).reverse ++ v :: rest ∧
      before = separated o [] (u :: past).reverse ∧
      after = o.margin (lineLevel (u :: past) v) ++ v.text o.keywordCase ++
        separated o (v :: u :: past) rest := by
  obtain ⟨past, v, rest, x, y, split, place | place⟩ := exists_place cut
  · obtain ⟨sep, lead, tail⟩ := place
    cases past with
    | nil => simp [separatorAfter] at sep
    | cons u past =>
      rcases separator_cases o past u v with line | none | space
      · rw [separatorAfter, line] at sep
        cases x with
        | nil =>
          obtain ⟨-, rfl⟩ := List.cons.inj sep
          exact ⟨u, past, v, rest, split, by simpa using lead, tail⟩
        | cons d x =>
          -- A margin holds no line feed.
          obtain ⟨-, spaces⟩ := List.cons.inj sep
          have held : '\n' ∈ o.margin (lineLevel (u :: past) v) := by simp [spaces]
          exact absurd (List.eq_of_mem_replicate held) (by decide)
      · simp [separatorAfter, none] at sep
      · rw [separatorAfter, space] at sep
        have held : '\n' ∈ [' '] := by rw [sep]; simp
        simp at held
  · obtain ⟨text, lead, tail⟩ := place
    have member : v ∈ phrases source := by simp [split]
    rcases Phrase.blank_of_text member text (by decide) with verbatim | space
    · obtain ⟨l, rfl, verbatim, -, right⟩ := verbatim
      have inside := insideVerbatim_text (o := o) split verbatim (x := x ++ ['\n']) (y := y)
        (by simpa using text) (by simp) right
      rw [← List.append_assoc, ← lead] at inside
      exact absurd inside outside
    · exact absurd space.1 (by decide)

/-- Each line that starts outside of quoted texts and comments starts with a phrase. -/
theorem margin_of_line (cut : format o source = before ++ after) (nonempty : after ≠ [])
    (line : before = [] ∨ before.getLast? = some '\n')
    (outside : ¬ InsideVerbatim (format o source) (byteLength before)) :
    ∃ past v rest c cs, phrases source = past.reverse ++ v :: rest ∧
      before = separated o [] past.reverse ++ (if past = [] then [] else ['\n']) ∧
      v.text o.keywordCase = c :: cs ∧ isBlank c = false ∧
      after = List.replicate (o.width * lineLevel past v) ' ' ++ v.text o.keywordCase ++
        separated o (v :: past) rest := by
  rcases line with rfl | ends
  · rw [List.nil_append, format_eq_separated_phrases] at cut
    cases split : phrases source with
    | nil =>
      rw [split] at cut
      exact absurd cut.symm nonempty
    | cons v rest =>
      have member : v ∈ phrases source := by simp [split]
      obtain ⟨-, c, cs, starts, solid⟩ := Phrase.solid_of_mem member o.keywordCase
      refine ⟨[], v, rest, c, cs, rfl, rfl, starts, solid, ?_⟩
      rw [← cut, split, lineLevel_nil]
      rfl
  · obtain ⟨lead, rfl⟩ := List.getLast?_eq_some_iff.mp ends
    rw [List.append_assoc, List.singleton_append] at cut
    obtain ⟨u, past, v, rest, split, first, last⟩ := separator_of_break cut outside
    have member : v ∈ phrases source := by simp [split]
    obtain ⟨-, c, cs, starts, solid⟩ := Phrase.solid_of_mem member o.keywordCase
    refine ⟨u :: past, v, rest, c, cs, split, by simp [first], starts, solid, ?_⟩
    rw [last, Options.margin, Nat.mul_comm]

/-- Outside of quoted texts and comments a blank breaks a line, belongs to the margin of one, or
stands between two characters that are not blank. -/
theorem blank_outside (cut : format o source = before ++ c :: after) (blank : isBlank c = true)
    (outside : ¬ InsideVerbatim (format o source) (byteLength before)) :
    c = '\n' ∨ c = ' ' ∧
      ((∃ lead n, before = lead ++ '\n' :: List.replicate n ' ' ∧
          ¬ InsideVerbatim (format o source) (byteLength (lead ++ ['\n']))) ∨
        (∃ d ∈ before.getLast?, isBlank d = false) ∧ ∃ d ∈ after.head?, isBlank d = false) := by
  obtain ⟨past, v, rest, x, y, split, place | place⟩ := exists_place cut
  · obtain ⟨sep, lead, tail⟩ := place
    cases past with
    | nil => simp [separatorAfter] at sep
    | cons u past =>
      rcases separator_cases o past u v with line | none | space
      · have whole := sep
        rw [separatorAfter, line] at sep
        cases x with
        | nil => exact .inl (List.cons.inj sep).1.symm
        | cons d x =>
          obtain ⟨rfl, spaces⟩ := List.cons.inj sep
          have margin := List.append_eq_replicate_iff.mp spaces.symm
          have here : c = ' ' := List.eq_of_mem_replicate (margin.2.2 ▸ List.mem_cons_self)
          refine .inr ⟨here, .inl ⟨separated o [] (u :: past).reverse, x.length, ?_, ?_⟩⟩
          · rw [lead, ← margin.2.1]
          · exact not_insideVerbatim_separator o split (x := ['\n']) (y := x ++ c :: y) whole
      · simp [separatorAfter, none] at sep
      · rw [separatorAfter, space] at sep
        obtain ⟨rfl, single⟩ : x = [] ∧ [' '] = c :: y := by
          cases x with
          | nil => exact ⟨rfl, sep⟩
          | cons d x => simp at sep
        obtain ⟨rfl, rfl⟩ := List.cons.inj single
        have member : v ∈ phrases source := by simp [split]
        obtain ⟨-, d, ds, starts, solid⟩ := Phrase.solid_of_mem member o.keywordCase
        refine .inr ⟨rfl, .inr ⟨?_, d, ?_, solid⟩⟩
        · rw [lead, List.append_nil]
          exact solid_end split
        · rw [tail, starts]
          rfl
  · obtain ⟨text, lead, tail⟩ := place
    have member : v ∈ phrases source := by simp [split]
    rcases Phrase.blank_of_text member text blank with verbatim | space
    · obtain ⟨l, rfl, verbatim, left, -⟩ := verbatim
      have inside := insideVerbatim_text (o := o) split verbatim text left (by simp)
      rw [← lead] at inside
      exact absurd inside outside
    · obtain ⟨rfl, ⟨d, last, solidLast⟩, e, first, solidFirst⟩ := space
      refine .inr ⟨rfl, .inr ⟨⟨d, ?_, solidLast⟩, e, ?_, solidFirst⟩⟩
      · rw [lead, List.getLast?_append]
        simp [Option.mem_def.mp last]
      · rw [tail, List.head?_append]
        simp [Option.mem_def.mp first]

end

/-- Each line that does not start inside a quoted text or a comment starts with the margin of its
level and then a phrase. No other blank outside of them is more than a single space. The depth
is never below zero: layout counts it down only where a block is closed. -/
theorem format_margins (o : Options) (source : List Char) :
    (∀ before after, format o source = before ++ after → after ≠ [] →
      (before = [] ∨ before.getLast? = some '\n') →
      ¬ InsideVerbatim (format o source) (byteLength before) →
      ∃ past v rest c cs, phrases source = past.reverse ++ v :: rest ∧
        before = separated o [] past.reverse ++ (if past = [] then [] else ['\n']) ∧
        v.text o.keywordCase = c :: cs ∧ isBlank c = false ∧
        after = List.replicate (o.width * lineLevel past v) ' ' ++ v.text o.keywordCase ++
          separated o (v :: past) rest) ∧
    (∀ before c after, format o source = before ++ c :: after → isBlank c = true →
      ¬ InsideVerbatim (format o source) (byteLength before) →
      c = '\n' ∨ c = ' ' ∧
        ((∃ lead n, before = lead ++ '\n' :: List.replicate n ' ' ∧
            ¬ InsideVerbatim (format o source) (byteLength (lead ++ ['\n']))) ∨
          (∃ d ∈ before.getLast?, isBlank d = false) ∧ ∃ d ∈ after.head?, isBlank d = false)) ∧
    ∀ past, (Layout.run o past.reverse).indent = depth past ∧
      ∀ v, isClosing .block past v = true →
        depth past = depth (v :: past) + if openParens 0 past = [] then 0 else 1 := by
  refine ⟨?_, ?_, ?_⟩
  · intro before after cut nonempty line outside
    exact margin_of_line cut nonempty line outside
  · intro before c after cut blank outside
    exact blank_outside cut blank outside
  · intro past
    exact ⟨indent_run o past, fun v closes => depth_of_isClosing closes⟩

end TidySql
