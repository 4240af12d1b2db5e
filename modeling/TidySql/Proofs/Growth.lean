import TidySql.Proofs.Spelling

/-! How the written text grows.
A step of layout takes back blanks at the end and puts its own text after what is left.
Nothing is asked of the lexemes, so this holds of texts that no scan makes: the
characters that are not blank are those of the lexemes, and what is laid out is never
revised. -/
namespace TidySql
open Text

/-- A text becomes another one by losing blanks at its end and getting an ending, which has
the same characters as `added` apart from blanks. -/
structure Text.Grows (added a b : List Char) : Prop where
  kept : trimEnd a <+: b
  ink : withoutBlanks b = withoutBlanks a ++ withoutBlanks added

namespace Text.Grows

theorem refl (a : List Char) : Grows [] a a :=
  ⟨trimEnd_prefix_self a, (List.append_nil _).symm⟩

theorem append (a added : List Char) : Grows added a (a ++ added) :=
  ⟨(trimEnd_prefix_self a).trans (List.prefix_append a added), withoutBlanks_append a added⟩

theorem trans {a b c x y : List Char} (first : Grows x a b) (second : Grows y b c) :
    Grows (x ++ y) a c where
  kept := by
    obtain ⟨rest, rfl⟩ := first.kept
    have kept := trimEnd_prefix_append (trimEnd a) rest
    rw [trimEnd_trimEnd] at kept
    exact kept.trans second.kept
  ink := by rw [second.ink, first.ink, withoutBlanks_append, List.append_assoc]

theorem congr {a b x y : List Char} (same : withoutBlanks x = withoutBlanks y)
    (h : Grows x a b) : Grows y a b := ⟨h.kept, same ▸ h.ink⟩

end Text.Grows

namespace Buffer

theorem grows_trimPadding (b : Buffer) : Grows [] b.toList b.trimPadding.toList := by
  have whole := dropEndWhile_append_takeWhile isPadding b.toList
  have blank : allBlank (b.toList.reverse.takeWhile isPadding).reverse = true := by
    rw [allBlank, List.all_reverse, List.all_eq_true]
    intro c member
    exact Layout.State.isBlank_of_isPadding c (List.mem_takeWhile_imp member)
  rw [toList_trimPadding]
  constructor
  · conv_lhs => rw [← whole, trimEnd_append_of_allBlank _ _ blank]
    exact trimEnd_prefix_self _
  · conv_rhs => rw [← whole, withoutBlanks_append, withoutBlanks_of_allBlank blank]
    simp [withoutBlanks]

theorem grows_append (b : Buffer) (cs : List Char) : Grows cs b.toList (b.append cs).toList := by
  rw [toList_append]
  exact .append b.toList cs

theorem grows_breakLine (b : Buffer) : Grows [] b.toList b.breakLine.toList := by
  unfold breakLine
  split
  · exact b.grows_trimPadding
  · exact (b.grows_trimPadding.trans (b.trimPadding.grows_append ['\n'])).congr (by decide)

end Buffer

namespace Keyword

/-- The letter case of the word is set, since it begins a clause or is reserved. -/
def isKnown (word : List Char) : Bool := isClause word || isReserved word

end Keyword

/-- The text that a lexeme stands for in the output, up to blanks. A mark of punctuation is
written as it is named, whatever its own text is. -/
def Lexeme.rendered (k : KeywordCase) (l : Lexeme) : List Char :=
  match l.kind with
  | .openParen => ['(']
  | .closeParen => [')']
  | .comma => [',']
  | .semicolon => [';']
  | .word => if Keyword.isKnown (upper l.text) then k.apply (upper l.text) else l.text
  | .comment | .quoted | .operator => l.text

namespace Phrase

def rendered (k : KeywordCase) : Phrase → List Char
  | compound c => k.apply c.text
  | single l => l.rendered k

theorem rendered_of_compoundOf? (k : KeywordCase) {a b : Lexeme} {c : Compound}
    (pair : compoundOf? a b = some c) :
    a.rendered k = k.apply c.first ∧ b.rendered k = k.apply c.second := by
  obtain ⟨ka, as⟩ := a
  obtain ⟨kb, bs⟩ := b
  obtain ⟨words, found⟩ := compoundOf?_eq_some_iff.mp pair
  obtain ⟨rfl, rfl⟩ : ka = .word ∧ kb = .word := words
  obtain ⟨member, first, second⟩ := Compound.find?_eq_some found
  have reserved := (Compound.isClause_text c member).2
  simp only at first second
  simp [Lexeme.rendered, first, second, Keyword.isKnown, reserved.1, reserved.2]

/-- The space inside a compound is all that the phrases have besides the lexemes. -/
theorem withoutBlanks_rendered_group (k : KeywordCase) (ls : List Lexeme) :
    withoutBlanks ((group ls).flatMap (rendered k)) =
      ls.flatMap fun l => withoutBlanks (l.rendered k) := by
  fun_induction group ls with
  | case1 => rfl
  | case2 a => simp [rendered]
  | case3 a b ls c pair ih =>
    have halves := rendered_of_compoundOf? k pair
    have apart : withoutBlanks (rendered k (compound c)) =
        withoutBlanks (a.rendered k) ++ withoutBlanks (b.rendered k) := by
      rw [rendered, KeywordCase.apply_compound, withoutBlanks_append, halves.1, halves.2]
      rfl
    rw [List.flatMap_cons, withoutBlanks_append, ih, apart, List.flatMap_cons, List.flatMap_cons,
      List.append_assoc]
  | case4 a b ls pair ih =>
    rw [List.flatMap_cons, withoutBlanks_append, ih]
    rfl

end Phrase

namespace Layout
namespace State

variable (o : Options) (s : State)

theorem grows_breakLine : Grows [] s.out.toList s.breakLine.out.toList := s.out.grows_breakLine

/-- The margin of a line, or the space before a block, adds blanks only. -/
theorem allBlank_lead (level : Nat) (gap : List Char) (blank : allBlank gap = true) :
    allBlank (if s.atLineStart then o.margin level else gap) = true := by
  split
  · exact o.allBlank_margin level
  · exact blank

theorem grows_write (text : List Char) (level : Nat) :
    Grows text s.out.toList (s.write o text level).out.toList := by
  refine (s.out.grows_append _).congr ?_
  rw [withoutBlanks_append, withoutBlanks_append,
    withoutBlanks_of_allBlank (allBlank_lead o s level [] rfl)]
  exact List.append_nil _

theorem grows_attach (text : List Char) : Grows text s.out.toList (s.attach text).out.toList :=
  s.out.grows_trimPadding.trans (s.out.trimPadding.grows_append text)

theorem grows_writeLine (text : List Char) (level : Nat) :
    Grows text s.out.toList (s.breakLine.write o text level).out.toList :=
  s.grows_breakLine.trans (s.breakLine.grows_write o text level)

theorem grows_attachLine (text : List Char) :
    Grows text s.out.toList (s.attach text).breakLine.out.toList :=
  ((s.grows_attach text).trans (s.attach text).grows_breakLine).congr (by simp)

theorem grows_openParen : Grows ['('] s.out.toList (s.openParen o).out.toList := by
  unfold openParen
  cases Paren.after s.previous with
  | inline => exact grows_attach _ ['(']
  | block =>
    refine (grows_attachLine _ _).congr ?_
    have lead := allBlank_lead o s s.indent [' '] (by decide)
    rw [withoutBlanks_append, withoutBlanks_of_allBlank lead]
    rfl

theorem grows_closeParen : Grows [')'] s.out.toList (s.closeParen o).out.toList := by
  unfold closeParen
  cases s.parens.head?.getD .block with
  | inline => exact (grows_attach _ [')', ' ']).congr (by decide)
  | block => exact grows_writeLine o _ [')'] _

theorem grows_comma : Grows [','] s.out.toList s.comma.out.toList := by
  unfold comma
  dsimp only
  split
  · exact grows_attachLine _ [',']
  · exact (grows_attach _ [',', ' ']).congr (by decide)

/-- A word starts a line or stays on it. Which of them, and at what level, is told by the clause
and the level of the state. -/
theorem word_cases (clause : Option Clause) (indent : Nat) (cs : List Char) :
    (∃ level, ∀ (o : Options) (s : State), s.clause = clause → s.indent = indent →
      (s.word o cs).out =
          (s.breakLine.write o (Lexeme.rendered o.keywordCase ⟨.word, cs⟩) level).out ∧
        (s.word o cs).atLineStart = false) ∨
    ∀ (o : Options) (s : State), s.clause = clause → s.indent = indent →
      (s.word o cs).out = (s.write o (Lexeme.rendered o.keywordCase ⟨.word, cs⟩) indent).out ∧
        (s.word o cs).atLineStart = false := by
  have known : ∀ k : KeywordCase, Keyword.isKnown (upper cs) = true →
      Lexeme.rendered k ⟨.word, cs⟩ = k.apply (upper cs) := fun k h => if_pos h
  by_cases begins : Keyword.isClause (upper cs) = true
  · refine .inl ⟨indent, ?_⟩
    rintro o s rfl rfl
    rw [known _ (by simp [Keyword.isKnown, begins]), word, if_pos begins]
    exact ⟨rfl, rfl⟩
  · by_cases joins : Keyword.isConnective (upper cs) = true ∧
        clause.any Clause.breaksOnCondition = true
    · refine .inl ⟨indent + 1, ?_⟩
      rintro o s rfl rfl
      have reserved := Keyword.isReserved_of_isConnective _ joins.1
      rw [known _ (by simp [Keyword.isKnown, reserved]), word, if_neg begins, if_pos joins]
      exact ⟨rfl, rfl⟩
    · refine .inr ?_
      rintro o s rfl rfl
      rw [word, if_neg begins, if_neg joins]
      by_cases reserved : Keyword.isReserved (upper cs) = true
      · rw [known _ (by simp [Keyword.isKnown, reserved]), if_pos reserved]
        exact ⟨rfl, rfl⟩
      · have name : Lexeme.rendered o.keywordCase ⟨.word, cs⟩ = cs :=
          if_neg (by simp [Keyword.isKnown, begins, reserved])
        rw [name, if_neg reserved]
        exact ⟨rfl, rfl⟩

theorem grows_word (cs : List Char) : Grows (Lexeme.rendered o.keywordCase ⟨.word, cs⟩)
    s.out.toList (s.word o cs).out.toList := by
  rcases word_cases s.clause s.indent cs with ⟨level, line⟩ | plain
  · rw [(line o s rfl rfl).1]
    exact grows_writeLine o s _ level
  · rw [(plain o s rfl rfl).1]
    exact grows_write o s _ s.indent

/-- A step puts the text of its phrase after what is written. -/
theorem grows_step (p : Phrase) :
    Grows (p.rendered o.keywordCase) s.out.toList (s.step o p).out.toList := by
  cases p with
  | compound c => exact grows_writeLine o s _ _
  | single l =>
    obtain ⟨kind, cs⟩ := l
    cases kind with
    | word => exact grows_word o s cs
    | quoted => exact grows_write o s cs s.indent
    | operator => exact grows_write o s cs s.indent
    | comment =>
      have written := grows_writeLine o s (trim cs) s.indent
      refine (written.trans (grows_breakLine _)).congr ?_
      rw [List.append_nil, withoutBlanks_trim]
      rfl
    | openParen => exact grows_openParen o s
    | closeParen => exact grows_closeParen o s
    | comma => exact grows_comma s
    | semicolon => exact grows_attachLine s [';']

theorem grows_foldl (ps : List Phrase) : Grows (ps.flatMap (Phrase.rendered o.keywordCase))
    s.out.toList (ps.foldl (State.step o) s).out.toList := by
  induction ps generalizing s with
  | nil => exact .refl _
  | cons p ps ih => exact (grows_step o s p).trans (ih (s.step o p))

end State

/-- Layout writes all characters of the lexemes that are not blank, each of them once and in
order, and no others. The words of a compound keyword are reserved, so their case is set. -/
theorem withoutBlanks_format (o : Options) (ls : List Lexeme) :
    withoutBlanks (format o ls) =
        ls.flatMap (fun l => withoutBlanks (l.rendered o.keywordCase)) ∧
      ∀ a b c, Phrase.compoundOf? a b = some c →
        a.rendered o.keywordCase = o.keywordCase.apply c.first ∧
          b.rendered o.keywordCase = o.keywordCase.apply c.second := by
  constructor
  · have written := (State.grows_foldl o {} (Phrase.group ls)).ink
    rw [format, withoutBlanks_trim]
    exact written.trans (Phrase.withoutBlanks_rendered_group o.keywordCase ls)
  · intro a b c pair
    exact Phrase.rendered_of_compoundOf? o.keywordCase pair

end Layout

theorem Compound.second_ne_first :
    ∀ c ∈ Compound.all, ∀ d ∈ Compound.all, c.second ≠ d.first := by decide

namespace Phrase

/-- The places where the pass over the lexemes stops, as numbers of lexemes before them. -/
def stops : List Lexeme → List Nat
  | [] => [0]
  | [_] => [0, 1]
  | a :: b :: ls =>
    match compoundOf? a b with
    | some _ => 0 :: (stops ls).map (· + 2)
    | none => 0 :: (stops (b :: ls)).map (· + 1)

/-- The second word of a compound keyword does not begin another one. -/
theorem compoundOf?_after {a b d : Lexeme} {c : Compound} (pair : compoundOf? a b = some c) :
    compoundOf? b d = none := by
  rw [Option.eq_none_iff_forall_ne_some]
  intro c' next
  have second := (compoundOf?_eq_some .upper pair).2
  have first := (compoundOf?_eq_some .upper next).1
  have listed := mem_all_of_compoundOf? pair
  have listed' := mem_all_of_compoundOf? next
  have same := congrArg Lexeme.text (second.symm.trans first)
  exact Compound.second_ne_first c listed c' listed' same

theorem apart_of_compoundOf? {a b : Lexeme} {c : Compound} (pair : compoundOf? a b = some c)
    (ls bs : List Lexeme) : Apart (a :: b :: ls) bs ↔ Apart ls bs := by
  refine ⟨fun h => h.tail.tail, ?_⟩
  intro h l last d first
  cases ls with
  | nil =>
    obtain rfl : b = l := by simpa using last
    exact compoundOf?_after pair
  | cons e ls => exact h l (by simpa using last) d first

theorem zero_mem_stops (ls : List Lexeme) : 0 ∈ stops ls := by
  fun_cases stops ls <;> simp [*]

/-- The pass stops wherever it would not part the words of a compound keyword. -/
theorem length_mem_stops_iff (as bs : List Lexeme) :
    as.length ∈ stops (as ++ bs) ↔ Apart as bs := by
  fun_induction group as with
  | case1 => simp [zero_mem_stops, Apart]
  | case2 a =>
    cases bs with
    | nil => simp [stops, Apart]
    | cons b bs =>
      cases pair : compoundOf? a b <;> simp [stops, Apart, pair, zero_mem_stops]
  | case3 a b ls c pair ih =>
    rw [apart_of_compoundOf? pair, ← ih]
    simp [stops, pair]
  | case4 a b ls pair ih =>
    have kept : Apart (a :: b :: ls) bs ↔ Apart (b :: ls) bs := by
      simp only [Apart, List.getLast?_cons_cons]
    rw [kept, ← ih]
    simp [stops, pair]

end Phrase

namespace Layout

theorem run_append (o : Options) (ps qs : List Phrase) :
    run o (ps ++ qs) = qs.foldl (State.step o) (run o ps) := List.foldl_append

/-- What is laid out is never revised: the output for the lexemes up to a place where the pass
stops is how the output for all of them begins. -/
theorem format_never_revised (o : Options) (as bs : List Lexeme)
    (reached : as.length ∈ Phrase.stops (as ++ bs)) : format o as <+: format o (as ++ bs) := by
  have apart := (Phrase.length_mem_stops_iff as bs).mp reached
  obtain ⟨rest, whole⟩ := (State.grows_foldl o (run o (Phrase.group as)) (Phrase.group bs)).kept
  rw [format, format, Phrase.group_append_of_apart apart, run_append, ← whole, ← trim_trimEnd]
  exact trim_prefix_append _ rest

/-- The blanks of a text that no scan makes are taken back, and nothing before them is. -/
theorem format_never_revised_blanks :
    [Lexeme.mk .word "group".toList, ⟨.word, "by".toList⟩].length ∈
        Phrase.stops ([⟨.word, "group".toList⟩, ⟨.word, "by".toList⟩] ++
          [⟨.quoted, " \t".toList⟩, ⟨.comma, []⟩, ⟨.word, "x".toList⟩]) ∧
      format {} [⟨.word, "group".toList⟩, ⟨.word, "by".toList⟩] <+:
        format {} ([⟨.word, "group".toList⟩, ⟨.word, "by".toList⟩] ++
          [⟨.quoted, " \t".toList⟩, ⟨.comma, []⟩, ⟨.word, "x".toList⟩]) ∧
      format {} ([⟨.word, "group".toList⟩, ⟨.word, "by".toList⟩] ++
          [⟨.quoted, " \t".toList⟩, ⟨.comma, []⟩, ⟨.word, "x".toList⟩]) =
        "GROUP BY,\nx".toList :=
  ⟨by decide, format_never_revised {} _ _ (by decide), by decide +kernel⟩

end Layout
end TidySql
