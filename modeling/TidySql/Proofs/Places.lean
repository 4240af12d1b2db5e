import TidySql.Proofs.Statements

/-! Where the phrases stand in the formatted text.
The scan reads the formatted text phrase by phrase, so the boundaries of a separator are
boundaries of pieces, and the text of a quoted lexeme or a comment is one token. A blank is in a
separator, inside such a token, or between the two words of a compound keyword. -/
namespace TidySql
open Text Lexer

/-- The text is cut inside a quoted text or a comment by a cut before byte `n`. -/
def InsideVerbatim (text : List Char) (n : Nat) : Prop :=
  ∃ t ∈ tokenize text, t.kind.isVerbatim = true ∧ t.start < n ∧ n < t.stop

/-- The units of layout of a text. -/
def phrases (source : List Char) : List Phrase :=
  Phrase.group ((tokenize source).map Token.toLexeme)

theorem Piece.flatten_map_blank (cs : List Char) :
    ((cs.map Piece.blank).map Piece.text).flatten = cs := by
  induction cs with
  | nil => rfl
  | cons c cs ih => exact congrArg (c :: ·) ih

section
variable {text : List Char} {A B : List Piece}

theorem bounds_of_mem_place {n : Nat} {ps : List Piece} {t : Token} (member : t ∈ place n ps) :
    n ≤ t.start ∧ t.stop ≤ n + byteLength (ps.map Piece.text).flatten := by
  induction ps generalizing n with
  | nil => cases member
  | cons p ps ih =>
    rw [List.map_cons, List.flatten_cons, byteLength_append]
    cases p with
    | blank c =>
      have inner := ih member
      simp only [Piece.text, byteLength] at inner ⊢
      omega
    | lexeme l =>
      rcases List.mem_cons.mp member with rfl | later
      · simp only [Piece.text]
        omega
      · have inner := ih later
        simp only [Piece.text] at inner ⊢
        omega

theorem not_insideVerbatim_of_pieces (h : pieces text = A ++ B) :
    ¬ InsideVerbatim text (byteLength (A.map Piece.text).flatten) := by
  rintro ⟨t, member, -, low, high⟩
  rw [tokenize_eq, h, place_append, List.mem_append] at member
  rcases member with before | after
  · have bounds := bounds_of_mem_place before
    omega
  · have bounds := bounds_of_mem_place after
    omega

theorem insideVerbatim_of_pieces {l : Lexeme} {x y : List Char}
    (h : pieces text = A ++ .lexeme l :: B)
    (verbatim : l.kind.isVerbatim = true) (cut : l.text = x ++ y) (left : x ≠ []) (right : y ≠ []) :
    InsideVerbatim text (byteLength ((A.map Piece.text).flatten ++ x)) := by
  let start := byteLength (A.map Piece.text).flatten
  refine ⟨⟨l, start, start + byteLength l.text⟩, ?_, verbatim, ?_⟩
  · rw [tokenize_eq, h, place_append, Nat.zero_add]
    exact List.mem_append_right _ List.mem_cons_self
  · have positive : ∀ cs : List Char, cs ≠ [] → 0 < byteLength cs := by
      intro cs nonempty
      obtain ⟨c, cs, rfl⟩ := List.exists_cons_of_ne_nil nonempty
      have := c.utf8Size_pos
      rw [byteLength]
      omega
    have := positive x left
    have := positive y right
    simp only [start, cut, byteLength_append]
    omega

end

theorem scans_phrases (k : KeywordCase) (source : List Char) :
    Scans ((phrases source).flatMap (Phrase.lexemes k)) := by
  rw [phrases, map_toLexeme_tokenize, Phrase.flatMap_group]
  exact (scans_lexemes source).normal k

/-- A member of a list in two parts is in the second part or in the first. -/
theorem append_eq_append_cons {α : Type} {a b x y : List α} {c : α} (h : a ++ b = x ++ c :: y) :
    (∃ z, x = a ++ z ∧ b = z ++ c :: y) ∨ ∃ z, a = x ++ c :: z ∧ y = z ++ b := by
  rcases List.append_eq_append_iff.mp h with second | ⟨z, lead, rest⟩
  · exact .inl second
  · cases z with
    | nil => exact .inl ⟨[], by simpa using lead.symm, by simpa using rest.symm⟩
    | cons d z =>
      obtain ⟨rfl, tail⟩ := List.cons.inj rest
      exact .inr ⟨z, lead, tail⟩

namespace Layout
open Phrase

/-- The gap after the phrases. -/
def gapAfter (o : Options) : List Phrase → Gap
  | [] => .start
  | u :: past => (run o past.reverse).trail u

theorem context_run (o : Options) (past : List Phrase) :
    (run o past.reverse).context = Context.after past := by
  have all := foldl_context_eq_after past.reverse
  rw [List.reverse_reverse] at all
  rw [run, context_foldl, ← all]
  rfl

theorem run_reverse_cons (o : Options) (p : Phrase) (past : List Phrase) :
    run o (p :: past).reverse = (run o past.reverse).step o p := by
  simp [run]

theorem separated_eq_spell (o : Options) (past ps : List Phrase) :
    separated o past ps = spell o (gapAfter o past) (run o past.reverse) ps := by
  cases past with
  | nil => exact (spell_initial o ps).symm
  | cons u past =>
    exact (spell_eq_separated o (context_run o past) (context_run o (u :: past)) ps).symm

theorem separatorAfter_eq_before (o : Options) (past : List Phrase) (v : Phrase) :
    separatorAfter o past v = (gapAfter o past).before o ((run o past.reverse).placement v) := by
  cases past with
  | nil =>
    change [] = o.margin (({} : State).placement v).level
    rw [level_placement_initial, Gap.margin_zero]
  | cons u past =>
    exact (before_eq_separator o (context_run o past) (context_run o (u :: past)) v).symm

theorem separated_append (o : Options) (past ps qs : List Phrase) :
    separated o past (ps ++ qs) = separated o past ps ++ separated o (ps.reverse ++ past) qs := by
  induction ps generalizing past with
  | nil => rfl
  | cons p ps ih =>
    simp only [List.cons_append, separated, ih, List.reverse_cons, List.append_assoc]
    rfl

theorem pieces_separated_cons (o : Options) (past : List Phrase) (p : Phrase) (ps : List Phrase)
    (h : Scans ((p :: ps).flatMap (Phrase.lexemes o.keywordCase))) :
    pieces (separated o past (p :: ps)) = (separatorAfter o past p).map Piece.blank ++
      p.pieces o.keywordCase ++ pieces (separated o (p :: past) ps) := by
  rw [separated_eq_spell, pieces_spell_cons o _ _ p ps h, separatorAfter_eq_before,
    separated_eq_spell o (p :: past), run_reverse_cons]
  rfl

/-- The scan reads the phrases up to any place by themselves. -/
theorem pieces_separated_append (o : Options) (past qs ps : List Phrase)
    (h : Scans ((qs ++ ps).flatMap (Phrase.lexemes o.keywordCase))) :
    ∃ A, pieces (separated o past (qs ++ ps)) = A ++ pieces (separated o (qs.reverse ++ past) ps) ∧
      (A.map Piece.text).flatten = separated o past qs := by
  induction qs generalizing past with
  | nil => exact ⟨[], rfl, rfl⟩
  | cons q qs ih =>
    obtain ⟨A, read, text⟩ := ih (q :: past) (Scans.of_phrases_append [q] h)
    refine ⟨(separatorAfter o past q).map Piece.blank ++ q.pieces o.keywordCase ++ A, ?_, ?_⟩
    · rw [List.cons_append, pieces_separated_cons o past q (qs ++ ps) h, read]
      simp
    · rw [List.map_append, List.map_append, List.flatten_append, List.flatten_append,
        Piece.flatten_map_blank, Phrase.flatten_pieces, text]
      rfl

/-- Each character of the text stands in the separator before a phrase or in the phrase. -/
theorem exists_block (o : Options) {past ps : List Phrase} {before after : List Char} {c : Char}
    (cut : separated o past ps = before ++ c :: after) :
    ∃ qs v rest x y, ps = qs ++ v :: rest ∧ before = separated o past qs ++ x ∧
      separatorAfter o (qs.reverse ++ past) v ++ v.text o.keywordCase = x ++ c :: y ∧
      after = y ++ separated o (v :: (qs.reverse ++ past)) rest := by
  induction ps generalizing past before with
  | nil => simp [separated] at cut
  | cons p ps ih =>
    rw [separated] at cut
    rcases append_eq_append_cons cut with ⟨z, lead, later⟩ | ⟨z, here, last⟩
    · obtain ⟨qs, v, rest, x, y, split, first, block, last⟩ := ih later
      refine ⟨p :: qs, v, rest, x, y, by rw [split]; rfl, ?_, ?_, ?_⟩
      · rw [lead, first, separated]
        simp
      · simpa using block
      · simpa using last
    · exact ⟨[], p, ps, before, z, rfl, rfl, here, last⟩

end Layout

open Layout

theorem format_eq_separated_phrases (o : Options) (source : List Char) :
    format o source = separated o [] (phrases source) := by
  rw [format_eq_spell_group, spell_initial, phrases, map_toLexeme_tokenize]

section
variable {o : Options} {source : List Char} {past rest : List Phrase} {v : Phrase}

/-- The text up to a phrase is read as pieces of its own, then the separator, then the phrase. -/
theorem pieces_format (o : Options) (h : phrases source = past.reverse ++ v :: rest) :
    ∃ A B, pieces (format o source) =
        A ++ (separatorAfter o past v).map Piece.blank ++ (v.pieces o.keywordCase ++ B) ∧
      (A.map Piece.text).flatten = separated o [] past.reverse := by
  have scans := scans_phrases o.keywordCase source
  rw [h] at scans
  obtain ⟨A, read, text⟩ := pieces_separated_append o [] past.reverse (v :: rest) scans
  refine ⟨A, pieces (separated o (v :: past) rest), ?_, text⟩
  rw [format_eq_separated_phrases, h, read, List.reverse_reverse, List.append_nil,
    pieces_separated_cons o past v rest (Scans.of_phrases_append _ scans)]
  simp

/-- No cut at a separator, or inside of it, is inside a quoted text or a comment. -/
theorem not_insideVerbatim_separator (o : Options) (h : phrases source = past.reverse ++ v :: rest)
    {x y : List Char} (cut : separatorAfter o past v = x ++ y) :
    ¬ InsideVerbatim (format o source) (byteLength (separated o [] past.reverse ++ x)) := by
  obtain ⟨A, B, read, text⟩ := pieces_format o h
  have boundary : pieces (format o source) =
      (A ++ x.map Piece.blank) ++ (y.map Piece.blank ++ (v.pieces o.keywordCase ++ B)) := by
    rw [read, cut]
    simp
  have outside := not_insideVerbatim_of_pieces boundary
  rw [List.map_append, List.flatten_append, text, Piece.flatten_map_blank] at outside
  exact outside

theorem insideVerbatim_text {l : Lexeme} (h : phrases source = past.reverse ++ .single l :: rest)
    (verbatim : l.kind.isVerbatim = true) {x y : List Char}
    (cut : (Phrase.single l).text o.keywordCase = x ++ y) (left : x ≠ []) (right : y ≠ []) :
    InsideVerbatim (format o source)
      (byteLength (separated o [] past.reverse ++ separatorAfter o past (.single l) ++ x)) := by
  obtain ⟨A, B, read, text⟩ := pieces_format o h
  have inside := insideVerbatim_of_pieces (l := l.normal o.keywordCase) read
    (by rw [Lexeme.kind_normal]; exact verbatim) cut left right
  rw [List.map_append, List.flatten_append, text, Piece.flatten_map_blank] at inside
  exact inside

end

/-! ### The blanks of a phrase -/

namespace Phrase

theorem compound_words : ∀ c ∈ Compound.all, ∀ k ∈ [KeywordCase.upper, KeywordCase.lower],
    ∀ w ∈ [k.apply c.first, k.apply c.second], w ≠ [] ∧ ∀ d ∈ w, isBlank d = false := by
  have facts : ∀ c ∈ Compound.all, ∀ k ∈ [KeywordCase.upper, KeywordCase.lower],
      ∀ w ∈ [k.apply c.first, k.apply c.second],
        w ≠ [] ∧ w.all (fun d => !isBlank d) = true := by decide
  intro c known k listed w member
  obtain ⟨nonempty, solid⟩ := facts c known k listed w member
  exact ⟨nonempty, by simpa using solid⟩

theorem solid_of_mem {source : List Char} {p : Phrase} (member : p ∈ phrases source)
    (k : KeywordCase) :
    trimEnd (p.text k) = p.text k ∧ ∃ c cs, p.text k = c :: cs ∧ isBlank c = false := by
  have listed : k ∈ [KeywordCase.upper, KeywordCase.lower] := by cases k <;> decide
  rw [phrases, map_toLexeme_tokenize] at member
  rcases mem_group member with ⟨c, known, rfl⟩ | ⟨l, inside, rfl⟩
  · refine ⟨(compound_solid c known k listed).1, ?_⟩
    obtain ⟨nonempty, solid⟩ := compound_words c known k listed (k.apply c.first) (by simp)
    obtain ⟨d, ds, word⟩ := List.exists_cons_of_ne_nil nonempty
    rw [text, KeywordCase.apply_compound, word]
    exact ⟨d, _, rfl, solid d (by rw [word]; exact List.mem_cons_self)⟩
  · have read := (scans_lexemes source).reads_of_mem l inside
    obtain ⟨c, cs, first, solid, -⟩ := (read.normal k).next_eq
    exact ⟨read.trimEnd_normal k, c, cs, first, solid⟩

/-- A blank in the text of a phrase is in the middle of a quoted text or a comment, or it is the
space between two words. -/
theorem blank_of_text {source : List Char} {p : Phrase} (member : p ∈ phrases source)
    {k : KeywordCase} {x y : List Char} {c : Char} (cut : p.text k = x ++ c :: y)
    (blank : isBlank c = true) :
    (∃ l, p = .single l ∧ l.kind.isVerbatim = true ∧ x ≠ [] ∧ y ≠ []) ∨
      (c = ' ' ∧ (∃ d ∈ x.getLast?, isBlank d = false) ∧ ∃ d ∈ y.head?, isBlank d = false) := by
  obtain ⟨ends, d, ds, starts, solid⟩ := solid_of_mem member k
  rw [phrases, map_toLexeme_tokenize] at member
  rcases mem_group member with ⟨w, known, rfl⟩ | ⟨l, inside, rfl⟩
  · right
    have listed : k ∈ [KeywordCase.upper, KeywordCase.lower] := by cases k <;> decide
    obtain ⟨first, solidFirst⟩ := compound_words w known k listed (k.apply w.first) (by simp)
    obtain ⟨second, solidSecond⟩ := compound_words w known k listed (k.apply w.second) (by simp)
    rw [text, KeywordCase.apply_compound] at cut
    -- The words are solid, so the blank can only be the space between them.
    rcases append_eq_append_cons cut with ⟨z, lead, tail⟩ | ⟨z, within, -⟩
    · cases z with
      | nil =>
        obtain ⟨rfl, rfl⟩ := List.cons.inj tail
        rw [List.append_nil] at lead
        subst lead
        refine ⟨rfl, ⟨_, List.getLast?_eq_some_getLast first, ?_⟩,
          ⟨_, List.head?_eq_some_head second, ?_⟩⟩
        · exact solidFirst _ (List.getLast_mem first)
        · exact solidSecond _ (List.head_mem second)
      | cons d z =>
        obtain ⟨-, within⟩ := List.cons.inj tail
        exact absurd blank (by simp [solidSecond c (by simp [within])])
    · exact absurd blank (by simp [solidFirst c (by simp [within])])
  · left
    have read := ((scans_lexemes source).reads_of_mem l inside).normal k
    have held : c ∈ (l.normal k).text := by
      rw [show (l.normal k).text = x ++ c :: y from cut]
      simp
    refine ⟨l, rfl, ?_, ?_, ?_⟩
    · by_cases comment : l.kind = .comment
      · rw [comment]
        rfl
      · by_cases quoted : l.kind = .quoted
        · rw [quoted]
          rfl
        · have solids := read.solid (by simpa using comment) (by simpa using quoted)
          exact absurd blank (by simp [solids c held])
    · rintro rfl
      rw [cut] at starts
      obtain ⟨rfl, -⟩ := List.cons.inj starts
      exact absurd blank (by simp [solid])
    · rintro rfl
      rw [trimEnd_eq_self_iff, cut] at ends
      exact absurd blank (by simp [ends c (by simp)])

end Phrase
end TidySql
