import TidySql.Format
import TidySql.Proofs.Placement
import TidySql.Proofs.Scanning

/-! The formatted text as the scan reads it.
The separators hold blanks only, and the one before a phrase keeps it apart from the
phrase before. So the scan reads the formatted text as the normal forms of the lexemes
of its source, and in this order. -/
namespace TidySql
open Text Lexer

theorem KeywordCase.apply_compound (k : KeywordCase) (c : Compound) :
    k.apply c.text = k.apply c.first ++ ' ' :: k.apply c.second := by
  cases k with
  | upper => rfl
  | lower => exact List.map_append

namespace Phrase

/-- The pieces of a phrase as it is written. -/
def pieces (k : KeywordCase) : Phrase → List Piece
  | compound c =>
    [.lexeme ⟨.word, k.apply c.first⟩, .blank ' ', .lexeme ⟨.word, k.apply c.second⟩]
  | single l => [.lexeme (l.normal k)]

theorem filterMap_pieces (k : KeywordCase) (p : Phrase) :
    (p.pieces k).filterMap Piece.lexeme? = p.lexemes k := by
  cases p <;> rfl

theorem flatten_pieces (k : KeywordCase) (p : Phrase) :
    ((p.pieces k).map Piece.text).flatten = p.text k := by
  cases p with
  | compound c => simp [pieces, Piece.text, text, KeywordCase.apply_compound]
  | single l => exact List.append_nil _

theorem mem_group {ls : List Lexeme} {p : Phrase} (member : p ∈ group ls) :
    (∃ c ∈ Compound.all, p = .compound c) ∨ ∃ l ∈ ls, p = .single l := by
  fun_induction group ls with
  | case1 => cases member
  | case2 a => exact .inr ⟨a, by simp, List.mem_singleton.mp member⟩
  | case3 a b ls c pair ih =>
    rcases List.mem_cons.mp member with rfl | member
    · exact .inl ⟨c, mem_all_of_compoundOf? pair, rfl⟩
    · refine (ih member).imp_right ?_
      rintro ⟨l, inside, rfl⟩
      exact ⟨l, List.mem_cons_of_mem a (List.mem_cons_of_mem b inside), rfl⟩
  | case4 a b ls pair ih =>
    rcases List.mem_cons.mp member with rfl | member
    · exact .inr ⟨a, by simp, rfl⟩
    · refine (ih member).imp_right ?_
      rintro ⟨l, inside, rfl⟩
      exact ⟨l, List.mem_cons_of_mem a inside, rfl⟩

end Phrase

namespace Layout

/-- The gap keeps a lexeme of the kind apart from whatever phrase follows. -/
def Gap.Separates : Gap → Kind → Prop
  | .start, _ => False
  | .tight, kind => kind = .openParen
  | .space, kind => kind ≠ .comment
  | .line, _ => True

theorem trail_separates (s : State) (l : Lexeme) : (s.trail (.single l)).Separates l.kind := by
  obtain ⟨kind, cs⟩ := l
  cases kind with
  | openParen => simp only [State.trail]; cases Paren.after s.previous <;> simp [Gap.Separates]
  | comma => simp only [State.trail]; split <;> simp [Gap.Separates]
  | _ => simp [State.trail, Gap.Separates]

/-- Only punctuation is placed directly after what is before it. -/
theorem kind_of_joined {s : State} {p : Phrase} (h : s.placement p = .joined) :
    ∃ l, p = .single l ∧ l.kind.isPunctuation = true := by
  cases p with
  | compound => cases h
  | single l =>
    refine ⟨l, rfl, ?_⟩
    obtain ⟨kind, cs⟩ := l
    cases kind with
    | openParen | closeParen | comma | semicolon => rfl
    | word =>
      simp only [State.placement] at h
      split at h
      · cases h
      · split at h <;> cases h
    | comment | quoted | operator => cases h

theorem separated_newline (kind : Kind) (text : List Char) : Separated kind ('\n' :: text) := by
  cases kind <;> simp [Separated] <;> decide

theorem separated_delimiter {kind : Kind} (other : kind ≠ .comment) {d : Char}
    (mark : isDelimiter d = true) (text : List Char) : Separated kind (d :: text) := by
  cases kind with
  | comment => exact absurd rfl other
  | openParen => trivial
  | _ => simpa [Separated] using mark

theorem Reads.text_of_punctuation {l : Lexeme} {rest : List Char} (h : Reads l rest)
    (mark : l.kind.isPunctuation = true) : ∃ c, l.text = [c] ∧ isDelimiter c = true := by
  cases h with
  | @punctuation c k _ found =>
    exact ⟨c, rfl, by simp [isDelimiter, found]⟩
  | _ => cases mark

/-- What is spelled after a gap is separated from what is before it. -/
theorem separated_spell (o : Options) {g : Gap} {kind : Kind} (sep : g.Separates kind) (s : State)
    (ps : List Phrase) (h : Scans (ps.flatMap (Phrase.lexemes o.keywordCase))) :
    Separated kind (spell o g s ps) := by
  cases ps with
  | nil => exact separated_nil kind
  | cons p ps =>
    simp only [spell, List.append_assoc]
    cases g with
    | start => exact sep.elim
    | line => exact separated_newline kind _
    | tight =>
      obtain rfl : kind = .openParen := sep
      trivial
    | space =>
      have other : kind ≠ .comment := sep
      cases place : s.placement p with
      | line => exact separated_newline kind _
      | apart | plain => exact separated_delimiter other (by decide) _
      | joined =>
        obtain ⟨l, rfl, mark⟩ := kind_of_joined place
        obtain ⟨c, text, delimiter⟩ :=
          Reads.text_of_punctuation (Scans.head h) (by simpa using mark)
        have spelled : (Phrase.single l).text o.keywordCase = [c] := text
        rw [spelled]
        exact separated_delimiter other delimiter _

theorem Scans.of_phrases_append {k : KeywordCase} (qs : List Phrase) {ps : List Phrase}
    (h : Scans ((qs ++ ps).flatMap (Phrase.lexemes k))) : Scans (ps.flatMap (Phrase.lexemes k)) := by
  induction qs with
  | nil => exact h
  | cons q qs ih =>
    apply ih
    rw [List.cons_append, List.flatMap_cons] at h
    cases q with
    | compound => exact h.tail.tail
    | single => exact h.tail

theorem eq_nil_of_flatMap_lexemes {k : KeywordCase} {ps : List Phrase}
    (h : ps.flatMap (Phrase.lexemes k) = []) : ps = [] := by
  cases ps with
  | nil => rfl
  | cons p ps => cases p <;> simp [Phrase.lexemes] at h

/-- The scan reads what stands before the first phrase as blanks, and then the phrase. -/
theorem pieces_spell_cons (o : Options) (g : Gap) (s : State) (p : Phrase) (ps : List Phrase)
    (h : Scans ((p :: ps).flatMap (Phrase.lexemes o.keywordCase))) :
    pieces (spell o g s (p :: ps)) = (g.before o (s.placement p)).map Piece.blank ++
      p.pieces o.keywordCase ++ pieces (spell o (s.trail p) (s.step o p) ps) := by
  rw [spell, List.append_assoc,
    pieces_append_of_allBlank _ _ (Gap.allBlank_before o g (s.placement p)), List.append_assoc]
  refine congrArg (_ ++ ·) ?_
  have ends : ps.flatMap (Phrase.lexemes o.keywordCase) = [] →
      spell o (s.trail p) (s.step o p) ps = [] := by
    intro none
    rw [eq_nil_of_flatMap_lexemes none, spell]
  rw [List.flatMap_cons] at h
  cases p with
  | compound c =>
    have sep : Gap.Separates .space .word := by simp [Gap.Separates]
    have apart := separated_spell o sep (s.step o (.compound c)) ps h.tail.tail
    have second := pieces_of_reads (h.tail.reads apart ends)
    have first := pieces_of_reads (h.reads
      (separated_delimiter (by simp) (by decide : isDelimiter ' ' = true)
        (o.keywordCase.apply c.second ++ spell o .space (s.step o (.compound c)) ps)) (by simp))
    have blank := pieces_append_of_allBlank [' ']
      (o.keywordCase.apply c.second ++ spell o .space (s.step o (.compound c)) ps) (by decide)
    rw [Phrase.text, KeywordCase.apply_compound, List.append_assoc]
    exact first.trans (congrArg (_ :: ·) (blank.trans (congrArg (_ :: ·) second)))
  | single l =>
    have apart := separated_spell o (trail_separates s l) (s.step o (.single l)) ps h.tail
    exact pieces_of_reads (h.reads (by rw [Lexeme.kind_normal]; exact apart) ends)

/-- The scan reads the spelled phrases as their lexemes. -/
theorem lexemes_spell (o : Options) (g : Gap) (s : State) (ps : List Phrase)
    (h : Scans (ps.flatMap (Phrase.lexemes o.keywordCase))) :
    lexemes (spell o g s ps) = ps.flatMap (Phrase.lexemes o.keywordCase) := by
  -- What stands before a phrase depends on all phrases before it, so gap and state vary.
  induction ps generalizing g s with
  | nil => simp [spell, lexemes, pieces]
  | cons p ps ih =>
    have tail := Scans.of_phrases_append [p] h
    rw [lexemes, pieces_spell_cons o g s p ps h, List.filterMap_append, List.filterMap_append,
      filterMap_map_blank, Phrase.filterMap_pieces, List.nil_append, List.flatMap_cons]
    exact congrArg (_ ++ ·) (ih _ _ tail)

theorem ready_group {ls : List Lexeme} (h : Scans ls)
    (whole : ∀ l ∈ ls, l.kind = .quoted → trimEnd l.text = l.text) :
    ∀ p ∈ Phrase.group ls, p.Ready := by
  intro p member
  rcases Phrase.mem_group member with ⟨c, listed, rfl⟩ | ⟨l, inside, rfl⟩
  · exact listed
  · exact ⟨h.reads_of_mem l inside, whole l inside⟩

/-- At the start nothing is indented. -/
theorem level_placement_initial (p : Phrase) : (({} : State).placement p).level = 0 := by
  cases p with
  | compound => rfl
  | single l =>
    obtain ⟨kind, cs⟩ := l
    cases kind with
    | word =>
      simp only [State.placement]
      split
      · rfl
      · split
        · rename_i joins
          exact absurd joins.2 (by decide)
        · rfl
    | _ => rfl

theorem head_text {k : KeywordCase} {p : Phrase} {ls : List Lexeme} (h : Scans (p.lexemes k ++ ls)) :
    ∃ c cs, p.text k = c :: cs ∧ isBlank c = false := by
  cases p with
  | compound c =>
    obtain ⟨d, ds, text, solid, -⟩ := Reads.next_eq h.head
    have first : k.apply c.first = d :: ds := text
    exact ⟨d, ds ++ ' ' :: k.apply c.second, by rw [Phrase.text, KeywordCase.apply_compound, first]; rfl,
      solid⟩
  | single l =>
    obtain ⟨d, ds, text, solid, -⟩ := Reads.next_eq h.head
    exact ⟨d, ds, text, solid⟩

theorem head?_spell_initial (o : Options) (ps : List Phrase)
    (h : Scans (ps.flatMap (Phrase.lexemes o.keywordCase))) :
    ∀ c ∈ (spell o .start {} ps).head?, isBlank c = false := by
  cases ps with
  | nil => simp [spell]
  | cons p ps =>
    obtain ⟨c, cs, text, solid⟩ := head_text h
    have none : Gap.before o .start (({} : State).placement p) = [] := by
      rw [Gap.before, level_placement_initial, Gap.margin_zero]
    simp [spell, none, text, solid]

theorem allBlank_text (g : Gap) : allBlank g.text = true := by
  cases g <;> decide

theorem trim_run (o : Options) (ps : List Phrase) (ready : ∀ p ∈ ps, p.Ready)
    (h : Scans (ps.flatMap (Phrase.lexemes o.keywordCase))) :
    trim (run o ps).out.toList = spell o .start {} ps ∧
      trimEnd (spell o .start {} ps) = spell o .start {} ps := by
  obtain ⟨g, last⟩ := run_shows o State.initial_shows ps ready
  have solid := last.solid
  rw [List.nil_append] at solid
  refine ⟨?_, solid⟩
  rw [run, last.out, trim_append_of_allBlank _ _ (allBlank_text g), List.nil_append,
    trim_of_solid _ (head?_spell_initial o ps h), solid]

theorem trimEnd_of_normal {k : KeywordCase} {ls : List Lexeme} :
    ∀ l ∈ ls.map (Lexeme.normal k), l.kind = .quoted → trimEnd l.text = l.text := by
  intro l member quoted
  obtain ⟨m, -, rfl⟩ := List.mem_map.mp member
  obtain ⟨kind, cs⟩ := m
  obtain rfl : kind = .quoted := by simpa using quoted
  exact trimEnd_trimEnd cs

/-- Layout of what the scan reads: the phrases of the normal forms, spelled out. -/
theorem format_eq_spell (o : Options) {ls : List Lexeme} (h : Scans ls) :
    format o ls = spell o .start {} (Phrase.group (ls.map (Lexeme.normal o.keywordCase))) := by
  have normal := h.normal o.keywordCase
  rw [← format_map_normal o o.keywordCase ls h, format]
  refine (trim_run o _ (ready_group normal trimEnd_of_normal) ?_).1
  rw [Phrase.flatMap_group]
  exact normal.normal o.keywordCase

theorem lexemes_format_of_scans (o : Options) {ls : List Lexeme} (h : Scans ls) :
    lexemes (format o ls) = ls.map (Lexeme.normal o.keywordCase) := by
  have again : (ls.map (Lexeme.normal o.keywordCase)).map (Lexeme.normal o.keywordCase) =
      ls.map (Lexeme.normal o.keywordCase) := by
    rw [List.map_map]
    exact List.map_congr_left fun l _ => Lexeme.normal_normal o.keywordCase o.keywordCase l
  have scans : Scans ((Phrase.group (ls.map (Lexeme.normal o.keywordCase))).flatMap
      (Phrase.lexemes o.keywordCase)) := by
    rw [Phrase.flatMap_group, again]
    exact h.normal o.keywordCase
  rw [format_eq_spell o h, lexemes_spell o .start {} _ scans, Phrase.flatMap_group, again]

end Layout

theorem lexemes_of_allBlank {source : List Char} (blank : allBlank source = true) :
    lexemes source = [] := by
  have h := lexemes_append_of_allBlank source [] blank
  rw [List.append_nil] at h
  rw [h]
  simp [lexemes, pieces]

/-- The test for a blank text saves work and changes nothing. -/
theorem format_eq (o : Options) (source : List Char) :
    format o source = Layout.format o (lexemes source) := by
  rw [format, map_toLexeme_tokenize]
  split
  · rename_i blank
    rw [lexemes_of_allBlank blank]
    rfl
  · rfl

theorem lexemes_format (o : Options) (source : List Char) :
    lexemes (format o source) = (lexemes source).map (Lexeme.normal o.keywordCase) := by
  rw [format_eq, Layout.lexemes_format_of_scans o (scans_lexemes source)]

end TidySql
