import TidySql.Proofs.Growth
import TidySql.Proofs.Statements

/-! The bookkeeping of layout.
What a state knows besides its text is told by the lexemes that layout has read: their parentheses
that are still open, how each of these was opened, the clause and the last word. Each step keeps
this, so it holds wherever the pass stops, also in lexemes that no scan makes. -/
namespace TidySql
open Text

namespace Phrase

/-- A cut of the phrases is a cut of the lexemes, as no compound is taken apart. -/
theorem exists_of_group_eq_append {ls : List Lexeme} {qs rs : List Phrase}
    (split : group ls = qs ++ rs) : ∃ read rest, ls = read ++ rest ∧ group read = qs ∧
      group rest = rs := by
  fun_induction group ls generalizing qs with
  | case1 =>
    obtain ⟨rfl, rfl⟩ := List.append_eq_nil_iff.mp split.symm
    exact ⟨[], [], rfl, rfl, rfl⟩
  | case2 a =>
    rcases List.singleton_eq_append_iff.mp split with ⟨rfl, rfl⟩ | ⟨rfl, rfl⟩
    · exact ⟨[], [a], rfl, rfl, rfl⟩
    · exact ⟨[a], [], rfl, rfl, rfl⟩
  | case3 a b ls k pair ih =>
    cases qs with
    | nil => exact ⟨[], a :: b :: ls, rfl, rfl, by simpa [group, pair] using split⟩
    | cons q qs =>
      obtain ⟨rfl, tail⟩ := List.cons.inj split
      obtain ⟨read, rest, rfl, rfl, rfl⟩ := ih tail
      exact ⟨a :: b :: read, rest, rfl, by simp [group, pair], rfl⟩
  | case4 a b ls pair ih =>
    cases qs with
    | nil => exact ⟨[], a :: b :: ls, rfl, rfl, by simpa [group, pair] using split⟩
    | cons q qs =>
      obtain ⟨rfl, tail⟩ := List.cons.inj split
      obtain ⟨read, rest, whole, rfl, rfl⟩ := ih tail
      refine ⟨a :: read, rest, by rw [whole, List.cons_append], ?_, rfl⟩
      cases read with
      | nil => rfl
      | cons c read =>
        obtain ⟨rfl, -⟩ := List.cons.inj whole
        simp [group, pair]

end Phrase

theorem Buffer.endsLine_append (b : Buffer) (cs : List Char) (c : Char) :
    (b.append (cs ++ [c])).endsLine = (c == '\n') := by
  simp [append, endsLine]

namespace Layout

/-! ### Line starts -/

namespace State
variable (o : Options) (s : State)

/-- The mark of the state says where its text stands. -/
def AtStart (s : State) : Prop := s.atLineStart = s.out.endsLine

theorem atStart_breakLine : s.breakLine.AtStart := s.out.endsLine_breakLine.symm

theorem atStart_write (text : List Char) (level : Nat) : (s.write o text level).AtStart :=
  (Buffer.endsLine_append s.out _ ' ').symm

theorem atStart_attach (text : List Char) {c : Char} (other : (c == '\n') = false) :
    (s.attach (text ++ [c])).AtStart :=
  ((Buffer.endsLine_append s.out.trimPadding text c).trans other).symm

theorem atStart_word (cs : List Char) : (s.word o cs).AtStart := by
  rcases word_cases s.clause s.indent cs with ⟨level, line⟩ | plain
  · obtain ⟨out, inside⟩ := line o s rfl rfl
    rw [AtStart, out, inside]
    exact atStart_write o s.breakLine _ level
  · obtain ⟨out, inside⟩ := plain o s rfl rfl
    rw [AtStart, out, inside]
    exact atStart_write o s _ s.indent

/-- Whatever stood there before, a step leaves the mark right. -/
theorem atStart_step (p : Phrase) : (s.step o p).AtStart := by
  cases p with
  | compound c => exact atStart_write o s.breakLine _ s.indent
  | single l =>
    obtain ⟨kind, cs⟩ := l
    cases kind with
    | word => exact atStart_word o s cs
    | quoted => exact atStart_write o s cs s.indent
    | operator => exact atStart_write o s cs s.indent
    | comment => exact atStart_breakLine _
    | openParen =>
      change (s.openParen o).AtStart
      unfold openParen
      cases Paren.after s.previous with
      | inline => exact atStart_attach _ [] (by decide)
      | block => exact atStart_breakLine _
    | closeParen =>
      change (s.closeParen o).AtStart
      unfold closeParen
      cases s.parens.head?.getD .block with
      | inline => exact atStart_attach _ [')'] (by decide)
      | block => exact atStart_write o _ [')'] _
    | comma =>
      change s.comma.AtStart
      unfold comma
      dsimp only
      split
      · exact atStart_breakLine _
      · exact atStart_attach _ [','] (by decide)
    | semicolon => exact atStart_breakLine (s.attach [';'])

theorem atStart_run (ps : List Phrase) : (run o ps).AtStart := by
  rcases List.eq_nil_or_concat ps with rfl | ⟨ps, p, rfl⟩
  · rfl
  · rw [List.concat_eq_append, run_append]
    exact atStart_step o (run o ps) p

end State

/-! ### The state at a place where the pass stops -/

/-- All that a state knows is told by the lexemes that are read: it is as after them. -/
structure Told (read : List Lexeme) (s : State) : Prop where
  parens : ∃ places, OpenPlaces (read.map Lexeme.kind) places ∧
    s.parens = places.map (styleAt read)
  indent : s.indent = s.parens.count .block
  /-- A block would be closed below the first level only by a parenthesis that closes nothing. -/
  floor : s.parens.head?.getD .block = .block →
    (s.indent = 0 ↔ ∀ i, ¬ StaysOpen (read.map Lexeme.kind) i)
  clause : s.clause = clauseAfter (Phrase.group read).reverse
  previous : s.previous = finalWord read
  lineStart : s.atLineStart = true ↔ s.out.toList = [] ∨ s.out.toList.getLast? = some '\n'

theorem told_run (o : Options) (read : List Lexeme) : Told read (run o (Phrase.group read)) := by
  have context : (run o (Phrase.group read)).context =
      (Phrase.group read).foldl Context.step {} := context_foldl o {} _
  have follows := Context.Follows.nil.foldl read
  rw [List.nil_append, ← context] at follows
  rw [foldl_context_eq_after] at context
  have indent := Context.indent_after (Phrase.group read).reverse
  have clause := Context.clause_after (Phrase.group read).reverse
  rw [← context] at indent clause
  have start := State.atStart_run o (Phrase.group read)
  generalize run o (Phrase.group read) = s at *
  obtain ⟨previous, places, opened, parens⟩ := follows
  change s.parens = _ at parens
  change s.indent = s.parens.count .block at indent
  refine ⟨⟨places, opened, parens⟩, indent, fun block => ?_, clause, previous, ?_⟩
  · have none : (∀ i, ¬ StaysOpen (read.map Lexeme.kind) i) ↔ s.parens = [] := by
      rw [parens, List.map_eq_nil_iff, List.eq_nil_iff_forall_not_mem]
      exact forall_congr' fun i => not_congr (opened.mem_iff i).symm
    rw [none, indent]
    cases shape : s.parens with
    | nil => simp
    | cons paren rest =>
      obtain rfl : paren = .block := by simpa [shape] using block
      simp
  · rw [start, Buffer.endsLine_iff]

/-- Whatever part of the phrases the pass has laid out, they are the phrases of the lexemes that it
has read, and the state is told by these lexemes. -/
theorem state_told (o : Options) {ls : List Lexeme} {qs rs : List Phrase}
    (reached : Phrase.group ls = qs ++ rs) : ∃ read rest, ls = read ++ rest ∧
      Phrase.group read = qs ∧ Phrase.group rest = rs ∧ Told read (run o qs) := by
  obtain ⟨read, rest, whole, front, back⟩ := Phrase.exists_of_group_eq_append reached
  refine ⟨read, rest, whole, front, back, ?_⟩
  rw [← front]
  exact told_run o read

/-- A parenthesis that closes nothing, and one in parentheses after a compound keyword. -/
theorem state_told_nested :
    Phrase.group [⟨.closeParen, [')']⟩, ⟨.word, "group".toList⟩, ⟨.word, "By".toList⟩,
        ⟨.openParen, ['(']⟩, ⟨.openParen, ['(']⟩, ⟨.comma, [',']⟩] =
      [.single ⟨.closeParen, [')']⟩, .compound ⟨"GROUP".toList, "BY".toList⟩,
        .single ⟨.openParen, ['(']⟩, .single ⟨.openParen, ['(']⟩] ++ [.single ⟨.comma, [',']⟩] ∧
    ∃ read rest, [⟨.closeParen, [')']⟩, ⟨.word, "group".toList⟩, ⟨.word, "By".toList⟩,
        ⟨.openParen, ['(']⟩, ⟨.openParen, ['(']⟩, ⟨.comma, [',']⟩] = read ++ rest ∧
      Phrase.group read = [.single ⟨.closeParen, [')']⟩,
        .compound ⟨"GROUP".toList, "BY".toList⟩, .single ⟨.openParen, ['(']⟩,
        .single ⟨.openParen, ['(']⟩] ∧
      Phrase.group rest = [.single ⟨.comma, [',']⟩] ∧
      Told read (run {} [.single ⟨.closeParen, [')']⟩,
        .compound ⟨"GROUP".toList, "BY".toList⟩, .single ⟨.openParen, ['(']⟩,
        .single ⟨.openParen, ['(']⟩]) := by
  have reached : Phrase.group [⟨.closeParen, [')']⟩, ⟨.word, "group".toList⟩,
        ⟨.word, "By".toList⟩, ⟨.openParen, ['(']⟩, ⟨.openParen, ['(']⟩, ⟨.comma, [',']⟩] =
      [.single ⟨.closeParen, [')']⟩, .compound ⟨"GROUP".toList, "BY".toList⟩,
        .single ⟨.openParen, ['(']⟩, .single ⟨.openParen, ['(']⟩] ++
        [.single ⟨.comma, [',']⟩] := by decide
  exact ⟨reached, state_told {} reached⟩

end Layout
end TidySql
