import TidySql.Proofs.Context
import TidySql.Proofs.Draft

/-! Layout before its options are chosen.
Every decision of a step reads the context, which has no part in the options, and the draft that
is written so far. So a run makes one draft for all options, and the final trim takes the
same marks of it. -/
namespace TidySql
open Text

namespace Phrase

/-- The keyword, in upper case, that layout writes for a phrase in the case asked for. -/
def known? : Phrase → Option (List Char)
  | compound c => some c.text
  | single l =>
    if l.kind = .word ∧ Keyword.isKnown (upper l.text) then some (upper l.text) else none

/-- What is written for a word, with its case left open if it is a keyword. -/
def wordDraft (cs : List Char) : Draft :=
  if Keyword.isKnown (upper cs) then [.keyword (upper cs)] else Draft.ofText cs

theorem writeOut_wordDraft (o : Options) (cs : List Char) :
    (wordDraft cs).writeOut o = Lexeme.rendered o.keywordCase ⟨.word, cs⟩ := by
  by_cases known : Keyword.isKnown (upper cs) = true
  · simp only [wordDraft, Lexeme.rendered, if_pos known]
    exact Draft.writeOut_keyword o (upper cs)
  · simp only [wordDraft, Lexeme.rendered, if_neg known]
    exact Draft.writeOut_ofText o cs

theorem keywords_wordDraft (cs : List Char) :
    (wordDraft cs).keywords = (single ⟨.word, cs⟩).known?.toList := by
  by_cases known : Keyword.isKnown (upper cs) = true
  · simp [wordDraft, known?, known, Draft.keywords, Mark.keyword?]
  · simp only [wordDraft, known?, if_neg known, Draft.keywords_ofText]
    simp [known]

theorem isKnown_of_known? {ls : List Lexeme} {p : Phrase} (member : p ∈ group ls) :
    ∀ w ∈ p.known?, Keyword.isKnown w = true := by
  intro w own
  rcases mem_group member with ⟨c, listed, rfl⟩ | ⟨l, -, rfl⟩
  · obtain rfl : c.text = w := Option.some.inj own
    simp [Keyword.isKnown, (Compound.isClause_text c listed).1]
  · simp only [known?, Option.mem_def, Option.ite_none_right_eq_some, Option.some.injEq] at own
    exact own.2 ▸ own.1.2

end Phrase

namespace Layout

/-- The state has written the draft as the options say. -/
structure Draws (o : Options) (d : Draft) (fresh : Bool) (s : State) : Prop where
  out : s.out.toList = d.writeOut o
  atLineStart : s.atLineStart = fresh

namespace Draws

variable {o : Options} {d : Draft} {fresh : Bool} {s : State}

theorem toList_trimPadding (known : d.Known) (h : Draws o d fresh s) :
    s.out.trimPadding.toList = d.trimPadding.writeOut o := by
  rw [Buffer.toList_trimPadding, h.out, Draft.writeOut_trimPadding o known]

/-- Whether the written text ends a line can be told from the draft. -/
theorem endsLine_trimPadding (known : d.Known) (h : Draws o d fresh s) :
    s.out.trimPadding.endsLine = true ↔
      d.trimPadding = [] ∨ d.trimPadding.getLast? = some (.char '\n') := by
  rw [Buffer.endsLine_iff, h.toList_trimPadding known]
  rcases List.eq_nil_or_concat d.trimPadding with empty | ⟨front, m, split⟩
  · simp [empty, Draft.writeOut]
  · rw [List.concat_eq_append] at split
    have member : m ∈ d :=
      (List.rdropWhile_prefix (Mark.passes Buffer.isPadding) d).subset
        (by change m ∈ d.trimPadding; simp [split])
    have stops : m.passes Buffer.isPadding = false := by
      have last := List.rdropWhile_last_not (Mark.passes Buffer.isPadding) d
        (by change d.trimPadding ≠ []; simp [split])
      change ¬ (d.trimPadding.getLast _).passes Buffer.isPadding = true at last
      simpa [split] using last
    have own := known.of_mem member
    obtain ⟨-, c, last, -⟩ := Mark.stops_write o State.isBlank_of_isPadding own stops
    have text : (d.trimPadding.writeOut o).getLast? = (m.write o).getLast? := by
      simp [split, Draft.writeOut, List.getLast?_append, Option.mem_def.mp last]
    have nonempty : d.trimPadding.writeOut o ≠ [] := by
      intro empty
      rw [empty, Option.mem_def.mp last] at text
      cases text
    rw [text, Mark.write_ends_iff o own stops, or_iff_right nonempty, split]
    simp

theorem breakLine (known : d.Known) (h : Draws o d fresh s) :
    Draws o d.breakLine true s.breakLine where
  out := by
    have trimmed := h.toList_trimPadding known
    change s.out.breakLine.toList = _
    rw [Buffer.breakLine, Draft.breakLine]
    by_cases ends : s.out.trimPadding.endsLine = true
    · rw [if_pos ends, if_pos ((h.endsLine_trimPadding known).mp ends), trimmed]
    · rw [if_neg ends, if_neg (mt (h.endsLine_trimPadding known).mpr ends), Buffer.toList_append,
        trimmed, Draft.writeOut_append]
      rfl
  atLineStart := rfl

theorem write (h : Draws o d fresh s) (level : Nat) (marks : Draft) :
    Draws o (d.write fresh level marks) false (s.write o (marks.writeOut o) level) where
  out := by
    have lead : Draft.writeOut o (Draft.lead fresh level []) = _ :=
      Draft.writeOut_lead o fresh level []
    rw [State.toList_out_write, h.out, h.atLineStart, Draft.write, Draft.writeOut_append,
      Draft.writeOut_append, Draft.writeOut_append, lead]
    rfl
  atLineStart := rfl

theorem attach (known : d.Known) (h : Draws o d fresh s) (marks : Draft) :
    Draws o (d.attach marks) false (s.attach (marks.writeOut o)) where
  out := by
    rw [State.attach, Buffer.toList_append, h.toList_trimPadding known, Draft.attach,
      Draft.writeOut_append]
  atLineStart := rfl

theorem writeText (h : Draws o d fresh s) (level : Nat) (cs : List Char) :
    Draws o (d.write fresh level (Draft.ofText cs)) false (s.write o cs level) := by
  have written := h.write level (Draft.ofText cs)
  rwa [Draft.writeOut_ofText] at written

theorem writeKeyword (h : Draws o d fresh s) (level : Nat) (word : List Char) :
    Draws o (d.write fresh level [.keyword word]) false
      (s.write o (o.keywordCase.apply word) level) := by
  have written := h.write level [.keyword word]
  rwa [Draft.writeOut_keyword] at written

theorem attachText (known : d.Known) (h : Draws o d fresh s) (cs : List Char) :
    Draws o (d.attach (Draft.ofText cs)) false (s.attach cs) := by
  have written := h.attach known (Draft.ofText cs)
  rwa [Draft.writeOut_ofText] at written

theorem attachLine (known : d.Known) (h : Draws o d fresh s) {marks : Draft}
    (plain : marks.keywords = []) :
    Draws o (d.attach marks).breakLine true (s.attach (marks.writeOut o)).breakLine := by
  have kept : (d.attach marks).Known := by
    rw [Draft.Known, Draft.keywords_attach, plain, List.append_nil]
    exact known
  exact (h.attach known marks).breakLine kept

end Draws

/-- The phrase makes another draft of the draft, whatever the options are. -/
def Advances (c : Context) (fresh : Bool) (d : Draft) (p : Phrase) : Prop :=
  ∃ (d' : Draft) (fresh' : Bool), d'.keywords = d.keywords ++ p.known?.toList ∧
    ∀ (o : Options) (s : State), s.context = c → Draws o d fresh s → Draws o d' fresh' (s.step o p)

section

variable (c : Context) (fresh : Bool) {d : Draft}

theorem advances_verbatim {kind : Kind} (verbatim : kind = .quoted ∨ kind = .operator)
    (cs : List Char) : Advances c fresh d (.single ⟨kind, cs⟩) := by
  refine ⟨d.write fresh c.indent (Draft.ofText cs), false, ?_, ?_⟩
  · rw [Draft.keywords_write, Draft.keywords_ofText]
    rcases verbatim with rfl | rfl <;> rfl
  · rintro o s rfl h
    have written := h.writeText s.indent cs
    rcases verbatim with rfl | rfl <;> exact ⟨written.out, written.atLineStart⟩

variable (known : d.Known)
include known

theorem advances_word (cs : List Char) : Advances c fresh d (.single ⟨.word, cs⟩) := by
  have text := Phrase.writeOut_wordDraft
  rcases State.word_cases c.clause c.indent cs with ⟨level, line⟩ | plain
  · refine ⟨d.breakLine.write true level (Phrase.wordDraft cs), false, ?_, ?_⟩
    · rw [Draft.keywords_write, Draft.keywords_breakLine, Phrase.keywords_wordDraft]
    · rintro o s rfl h
      obtain ⟨out, flag⟩ := line o s rfl rfl
      have written := (h.breakLine known).write level (Phrase.wordDraft cs)
      rw [text] at written
      exact ⟨(congrArg Buffer.toList out).trans written.out, flag⟩
  · refine ⟨d.write fresh c.indent (Phrase.wordDraft cs), false, ?_, ?_⟩
    · rw [Draft.keywords_write, Phrase.keywords_wordDraft]
    · rintro o s rfl h
      obtain ⟨out, flag⟩ := plain o s rfl rfl
      have written := h.write s.indent (Phrase.wordDraft cs)
      rw [text] at written
      exact ⟨(congrArg Buffer.toList out).trans written.out, flag⟩

theorem advances_openParen (cs : List Char) : Advances c fresh d (.single ⟨.openParen, cs⟩) := by
  cases style : Paren.after c.previous with
  | inline =>
    refine ⟨d.attach (Draft.ofText ['(']), false, by rw [Draft.keywords_attach]; rfl, ?_⟩
    rintro o s rfl h
    have here : Paren.after s.previous = .inline := style
    have written := h.attachText known ['(']
    simp only [State.step, State.lexeme, State.openParen, here]
    exact ⟨written.out, written.atLineStart⟩
  | block =>
    let marks := Draft.lead fresh c.indent (Draft.ofText [' ']) ++ Draft.ofText ['(']
    have own : Draft.keywords marks = [] := by
      rw [Draft.keywords_append, Draft.keywords_lead]
      rfl
    refine ⟨(d.attach marks).breakLine, true, ?_, ?_⟩
    · rw [Draft.keywords_breakLine, Draft.keywords_attach, own]
      rfl
    · rintro o s rfl h
      have here : Paren.after s.previous = .block := style
      have written := h.attachLine known own
      rw [Draft.writeOut_append, Draft.writeOut_lead, Draft.writeOut_ofText] at written
      simp only [State.step, State.lexeme, State.openParen, here, h.atLineStart]
      exact ⟨written.out, written.atLineStart⟩

theorem advances_closeParen (cs : List Char) : Advances c fresh d (.single ⟨.closeParen, cs⟩) := by
  cases style : c.parens.head?.getD .block with
  | inline =>
    refine ⟨d.attach (Draft.ofText [')', ' ']), false, by rw [Draft.keywords_attach]; rfl, ?_⟩
    rintro o s rfl h
    have here : s.parens.head?.getD .block = .inline := style
    have written := h.attachText known [')', ' ']
    simp only [State.step, State.lexeme, State.closeParen, here]
    exact ⟨written.out, written.atLineStart⟩
  | block =>
    refine ⟨d.breakLine.write true (c.indent - 1) (Draft.ofText [')']), false, ?_, ?_⟩
    · rw [Draft.keywords_write, Draft.keywords_breakLine]
      rfl
    · rintro o s rfl h
      have here : s.parens.head?.getD .block = .block := style
      have written := (h.breakLine known).writeText (s.indent - 1) [')']
      simp only [State.step, State.lexeme, State.closeParen, here]
      exact ⟨written.out, written.atLineStart⟩

theorem advances_comma (cs : List Char) : Advances c fresh d (.single ⟨.comma, cs⟩) := by
  by_cases breaks : c.clause.any Clause.breaksAfterComma = true
  · refine ⟨(d.attach (Draft.ofText [','])).breakLine, true, ?_, ?_⟩
    · rw [Draft.keywords_breakLine, Draft.keywords_attach]
      rfl
    · rintro o s rfl h
      have here : s.clause.any Clause.breaksAfterComma = true := breaks
      have written := h.attachLine known (Draft.keywords_ofText [','])
      rw [Draft.writeOut_ofText] at written
      simp only [State.step, State.lexeme, State.comma, if_pos here]
      exact ⟨written.out, written.atLineStart⟩
  · refine ⟨d.attach (Draft.ofText [',', ' ']), false, by rw [Draft.keywords_attach]; rfl, ?_⟩
    rintro o s rfl h
    have here : ¬ s.clause.any Clause.breaksAfterComma = true := breaks
    have written := h.attachText known [',', ' ']
    simp only [State.step, State.lexeme, State.comma, if_neg here]
    exact ⟨written.out, written.atLineStart⟩

theorem advances_semicolon (cs : List Char) : Advances c fresh d (.single ⟨.semicolon, cs⟩) := by
  refine ⟨(d.attach (Draft.ofText [';'])).breakLine, true, ?_, ?_⟩
  · rw [Draft.keywords_breakLine, Draft.keywords_attach]
    rfl
  · rintro o s rfl h
    have written := h.attachLine known (Draft.keywords_ofText [';'])
    rw [Draft.writeOut_ofText] at written
    exact ⟨written.out, written.atLineStart⟩

theorem advances_comment (cs : List Char) : Advances c fresh d (.single ⟨.comment, cs⟩) := by
  have own : (d.breakLine.write true c.indent (Draft.ofText (trim cs))).keywords = d.keywords := by
    rw [Draft.keywords_write, Draft.keywords_breakLine, Draft.keywords_ofText, List.append_nil]
  refine ⟨(d.breakLine.write true c.indent (Draft.ofText (trim cs))).breakLine, true, ?_, ?_⟩
  · rw [Draft.keywords_breakLine, own]
    exact (List.append_nil _).symm
  · rintro o s rfl h
    have kept : (d.breakLine.write true s.indent (Draft.ofText (trim cs))).Known := by
      rw [Draft.Known]
      exact own ▸ known
    have written := ((h.breakLine known).writeText s.indent (trim cs)).breakLine kept
    exact ⟨written.out, written.atLineStart⟩

theorem advances_compound (k : Compound) : Advances c fresh d (.compound k) := by
  refine ⟨d.breakLine.write true c.indent [.keyword k.text], false, ?_, ?_⟩
  · rw [Draft.keywords_write, Draft.keywords_breakLine]
    rfl
  · rintro o s rfl h
    have written := (h.breakLine known).writeKeyword s.indent k.text
    exact ⟨written.out, written.atLineStart⟩

/-- Every decision of a step reads the context and the draft alone. -/
theorem advances (p : Phrase) : Advances c fresh d p := by
  cases p with
  | compound k => exact advances_compound c fresh known k
  | single l =>
    obtain ⟨kind, cs⟩ := l
    cases kind with
    | word => exact advances_word c fresh known cs
    | quoted => exact advances_verbatim c fresh (.inl rfl) cs
    | operator => exact advances_verbatim c fresh (.inr rfl) cs
    | comment => exact advances_comment c fresh known cs
    | openParen => exact advances_openParen c fresh known cs
    | closeParen => exact advances_closeParen c fresh known cs
    | comma => exact advances_comma c fresh known cs
    | semicolon => exact advances_semicolon c fresh known cs

/-- A run makes one draft for all options. -/
theorem exists_draft (ps : List Phrase) (own : ∀ p ∈ ps, ∀ w ∈ p.known?, Keyword.isKnown w = true) :
    ∃ d' : Draft, d'.keywords = d.keywords ++ ps.filterMap Phrase.known? ∧
      ∀ (o : Options) (s : State), s.context = c → Draws o d fresh s →
        (ps.foldl (State.step o) s).out.toList = d'.writeOut o := by
  induction ps generalizing c fresh d with
  | nil => exact ⟨d, (List.append_nil _).symm, fun o s _ h => h.out⟩
  | cons p ps ih =>
    obtain ⟨d₁, fresh₁, keywords₁, drawn⟩ := advances c fresh known p
    have known₁ : d₁.Known := by
      intro w member
      rw [keywords₁] at member
      rcases List.mem_append.mp member with before | here
      · exact known w before
      · exact own p (by simp) w (Option.mem_toList.mp here)
    obtain ⟨d', keywords, out⟩ :=
      ih (c.step p) fresh₁ known₁ fun q member => own q (List.mem_cons_of_mem p member)
    refine ⟨d', ?_, ?_⟩
    · rw [keywords, keywords₁, List.append_assoc]
      cases word : p.known? <;> simp [word]
    · intro o s context h
      exact out o (s.step o p) (by rw [State.context_step, context]) (drawn o s context h)

end

theorem format_eq_writeOut (ls : List Lexeme) :
    ∃ d : Draft, d.keywords = (Phrase.group ls).filterMap Phrase.known? ∧ d.Known ∧
      ∀ o, format o ls = d.writeOut o := by
  have own : ∀ p ∈ Phrase.group ls, ∀ w ∈ p.known?, Keyword.isKnown w = true :=
    fun _ member => Phrase.isKnown_of_known? member
  have none : Draft.Known [] := fun w member => by cases member
  obtain ⟨d, keywords, out⟩ := exists_draft {} true none (Phrase.group ls) own
  have known : d.Known := by
    intro w member
    rw [keywords] at member
    obtain ⟨p, inside, word⟩ := List.mem_filterMap.mp member
    exact own p inside w word
  have trimmed : d.trim.keywords = d.keywords := by
    rw [Draft.trim, Draft.keywords_dropEndWhile, Draft.keywords_dropWhile]
  refine ⟨d.trim, trimmed.trans keywords, fun w member => known w (trimmed ▸ member), ?_⟩
  intro o
  rw [format, run, out o {} rfl ⟨rfl, rfl⟩, Draft.writeOut_trim o known]

end Layout

namespace Text

/-- Putting letters in lower case makes no blanks. -/
theorem toLower_eq_blank_iff {d : Char} (blank : isBlank d = true) (c : Char) :
    c.toLower = d ↔ c = d := by
  rcases toLower_cases c with same | ⟨i, capital, rfl⟩
  · rw [same]
  · have letter := (capital_facts i capital).2.2
    have upper_ne : Char.ofNat (65 + i) ≠ d := by
      rintro rfl
      exact Bool.false_ne_true (((Lexer.isWord_iff _).mp letter.1).1.symm.trans blank)
    have lower_ne : (Char.ofNat (65 + i)).toLower ≠ d := by
      rintro rfl
      exact Bool.false_ne_true (((Lexer.isWord_iff _).mp letter.2).1.symm.trans blank)
    simp only [upper_ne, lower_ne]

theorem filter_lower (cs : List Char) :
    (lower cs).filter (· != ' ') = lower (cs.filter (· != ' ')) := by
  rw [lower, List.filter_map]
  congr 2
  funext c
  change (c.toLower != ' ') = (c != ' ')
  have same := toLower_eq_blank_iff (by decide : isBlank ' ' = true) c
  by_cases space : c = ' '
  · rw [same.mpr space, space]
  · rw [bne_iff_ne.mpr (mt same.mp space), bne_iff_ne.mpr space]

theorem count_newline (cs : List Char) :
    (lower (cs.filter (· != ' '))).count '\n' = cs.count '\n' := by
  rw [lower, List.count_eq_countP, List.countP_map, List.countP_filter, List.count_eq_countP]
  apply List.countP_congr
  intro c _
  have same := toLower_eq_blank_iff (by decide : isBlank '\n' = true) c
  by_cases newline : c = '\n'
  · simp [newline]
  · simp [mt same.mp newline, newline]

end Text

namespace Mark

theorem text_alike (m : Mark) : equalIgnoringCase (m.text .upper) (m.text .lower) = true := by
  cases m with
  | char | margin => exact beq_self_eq_true _
  | keyword w => exact (equalIgnoringCase_iff _ _).mpr (lower_lower w).symm

end Mark

namespace Layout

theorem lower_filter_write (o : Options) (m : Mark) :
    lower ((m.write o).filter (· != ' ')) = lower ((m.text .upper).filter (· != ' ')) := by
  have margin : (List.replicate (o.width * m.level) ' ').filter (· != ' ') = [] := by simp
  rw [Mark.write, List.filter_append, margin, List.nil_append]
  cases o.keywordCase with
  | upper => rfl
  | lower =>
    cases m with
    | char | margin => rfl
    | keyword w =>
      change lower ((lower w).filter _) = lower (w.filter _)
      rw [filter_lower, lower_lower]

theorem lower_filter_writeOut (o o' : Options) (d : Draft) :
    lower ((d.writeOut o).filter (· != ' ')) = lower ((d.writeOut o').filter (· != ' ')) := by
  simp only [Draft.writeOut, lower, List.filter_flatMap, List.map_flatMap]
  congr 1
  funext m
  exact (lower_filter_write o m).trans (lower_filter_write o' m).symm

theorem width_clamped (n : Nat) (k : KeywordCase) :
    Options.width ⟨max 1 (min n Options.maxWidth), k⟩ = Options.width ⟨n, k⟩ := by
  have widest := Nat.min_eq_left (Options.width_le_maxWidth ⟨n, k⟩)
  have least := Nat.max_eq_right (Options.one_le_width ⟨n, k⟩)
  calc Options.width ⟨Options.width ⟨n, k⟩, k⟩
      = max 1 (min (Options.width ⟨n, k⟩) Options.maxWidth) := rfl
    _ = Options.width ⟨n, k⟩ := by rw [widest, least]

/-- For any lexemes there is one draft, and the options write it out: the width says how many
spaces a level has, and the case says how the keywords are spelled. So lines break at the same
places whatever the options are, and a width out of bounds counts as the nearest one. -/
theorem format_writes_draft (ls : List Lexeme) :
    (∃ d : Draft,
      (∀ o, format o ls = d.flatMap fun m =>
        List.replicate (o.width * m.level) ' ' ++ m.text o.keywordCase) ∧
      d.filterMap Mark.keyword? = (Phrase.group ls).filterMap Phrase.known? ∧
      ∀ m ∈ d, equalIgnoringCase (m.text .upper) (m.text .lower) = true ∧
        (m.text .upper ≠ m.text .lower →
          ∃ w, m.keyword? = some w ∧ Keyword.isKnown w = true)) ∧
    (∀ o o', lower ((format o ls).filter (· != ' ')) = lower ((format o' ls).filter (· != ' ')) ∧
      (format o ls).count '\n' = (format o' ls).count '\n') ∧
    ∀ n k, format ⟨n, k⟩ ls = format ⟨max 1 (min n Options.maxWidth), k⟩ ls := by
  obtain ⟨d, keywords, known, out⟩ := format_eq_writeOut ls
  refine ⟨⟨d, out, keywords, ?_⟩, ?_, ?_⟩
  · intro m member
    refine ⟨m.text_alike, ?_⟩
    intro differs
    cases m with
    | char | margin => exact absurd rfl differs
    | keyword w => exact ⟨w, rfl, known.of_mem member w rfl⟩
  · intro o o'
    have same := lower_filter_writeOut o o' d
    rw [← out, ← out] at same
    refine ⟨same, ?_⟩
    rw [← count_newline, same, count_newline]
  · intro n k
    have width := width_clamped n k
    rw [out, out, Draft.writeOut, Draft.writeOut]
    congr 1
    funext m
    rw [Mark.write, Mark.write, width]

end Layout
end TidySql
