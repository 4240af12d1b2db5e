import TidySql.Proofs.Margins

/-! Groups in inline parentheses.
Layout writes such a group tight, but two rules do not ask whether they are inside of one. A
parenthesis with no word before it opens a block there too, and in a clause that lists
its items on lines of their own a comma breaks the line in a call as well. -/
namespace TidySql
open Text Lexer

namespace Phrase

/-- An item of a list that begins no clause, joins no conditions and ends no line by itself. -/
def isOrdinary : Phrase → Bool
  | compound _ => false
  | single l =>
    match l.kind with
    | .word => !Keyword.isClause (upper l.text) && !Keyword.isConnective (upper l.text)
    | .quoted | .operator | .comma => true
    | _ => false

end Phrase

namespace Layout
open Phrase

/-- After the phrases `past` there come only ordinary items and whole inline groups of such. -/
inductive Flat : List Phrase → List Phrase → Prop where
  | nil {past : List Phrase} : Flat past []
  | item {past ps : List Phrase} {p : Phrase} : p.isOrdinary = true → Flat (p :: past) ps →
      Flat past (p :: ps)
  | group {past body after : List Phrase} {u w : Phrase} : isOpening .inline past u = true →
      Flat (u :: past) body → w.isKind .closeParen = true →
      Flat (w :: (body.reverse ++ u :: past)) after → Flat past (u :: (body ++ w :: after))

/-- A phrase that leaves its line, its clause and its block as they are. A comma may still
end the line. -/
def staysInline (past : List Phrase) (p : Phrase) : Bool :=
  p.isOrdinary || isOpening .inline past p || isClosing .inline past p

section
variable {past : List Phrase} {p : Phrase}

theorem staysInline_cases (h : staysInline past p = true) : ∃ kind cs, p = .single ⟨kind, cs⟩ ∧
    (kind = .word ∧ Keyword.isClause (upper cs) = false ∧
        Keyword.isConnective (upper cs) = false ∨
      (kind = .quoted ∨ kind = .operator ∨ kind = .comma) ∨
      kind = .openParen ∧ opening past = .inline ∨
      kind = .closeParen ∧ closing past = .inline) := by
  cases p with
  | compound => simp [staysInline, isOrdinary, isOpening, isClosing, isKind] at h
  | single l =>
    obtain ⟨kind, cs⟩ := l
    refine ⟨kind, cs, rfl, ?_⟩
    cases kind <;> simp [staysInline, isOrdinary, isOpening, isClosing, isKind] at h ⊢ <;> exact h

theorem keyword?_of_staysInline (h : staysInline past p = true) :
    p.keyword? = none ∧ p.isKind .semicolon = false := by
  obtain ⟨kind, cs, rfl, cases⟩ := staysInline_cases h
  rcases cases with ⟨rfl, plain, -⟩ | (rfl | rfl | rfl) | ⟨rfl, -⟩ | ⟨rfl, -⟩
  · simp [keyword?, isKind, plain]
  all_goals simp [keyword?, isKind]

theorem startsLine_of_staysInline (h : staysInline past p = true) : startsLine past p = false := by
  obtain ⟨kind, cs, rfl, cases⟩ := staysInline_cases h
  rcases cases with ⟨rfl, plain, single⟩ | (rfl | rfl | rfl) | ⟨rfl, -⟩ | ⟨rfl, closes⟩
  · simp [startsLine, isClosing, isCondition, isConnective, keyword?, isKind, plain, single]
  · rfl
  · rfl
  · rfl
  · rfl
  · simp [startsLine, isClosing, isCondition, isConnective, keyword?, isKind, closes]

theorem endsLine_of_staysInline (h : staysInline past p = true) : endsLine past p =
    (p.isKind .comma && (clauseAfter past).any Clause.breaksAfterComma) := by
  obtain ⟨kind, cs, rfl, cases⟩ := staysInline_cases h
  rcases cases with ⟨rfl, -⟩ | (rfl | rfl | rfl) | ⟨rfl, opens⟩ | ⟨rfl, -⟩
  · rfl
  · rfl
  · rfl
  · rfl
  · simp [endsLine, isOpening, isKind, opens]
  · rfl

theorem clauseAfter_append {ps : List Phrase}
    (plain : ∀ p ∈ ps, p.keyword? = none ∧ p.isKind .semicolon = false) :
    clauseAfter (ps ++ past) = clauseAfter past := by
  induction ps with
  | nil => rfl
  | cons p ps ih =>
    obtain ⟨word, lasts⟩ := plain p List.mem_cons_self
    have rest := ih fun q member => plain q (List.mem_cons_of_mem p member)
    rw [← rest]
    simp [clauseAfter, lasts, word]

/-! ### The parentheses of a flat text -/

theorem openParens_of_opening (opens : p.isKind .openParen = true) :
    openParens 0 (p :: past) = opening past :: openParens 0 past := by
  simp [openParens, not_closing_of_opening opens, opens]

theorem openParens_of_isOrdinary (ordinary : p.isOrdinary = true) :
    openParens 0 (p :: past) = openParens 0 past := by
  have neither : p.isKind .closeParen = false ∧ p.isKind .openParen = false := by
    cases p with
    | compound => exact ⟨rfl, rfl⟩
    | single l =>
      obtain ⟨kind, cs⟩ := l
      cases kind <;> simp [isOrdinary, isKind] at ordinary ⊢
  simp [openParens, neither]

end

namespace Flat

variable {past ps : List Phrase}

/-- Every group of a flat text is closed in it. -/
theorem openParens_eq (flat : Flat past ps) :
    openParens 0 (ps.reverse ++ past) = openParens 0 past := by
  induction flat with
  | nil => rfl
  | item ordinary _ ih => simpa [openParens_of_isOrdinary ordinary] using ih
  | @group past body after u w opens _ closes _ inner outer =>
    have kind : u.isKind .openParen = true := (Bool.and_eq_true_iff.mp opens).1
    rw [openParens_of_closing closes, inner, openParens_of_opening kind, List.tail_cons] at outer
    simpa using outer

theorem isClosing_inline {body : List Phrase} {u w : Phrase} (flat : Flat (u :: past) body)
    (opens : isOpening .inline past u = true) (closes : w.isKind .closeParen = true) :
    isClosing .inline (body.reverse ++ u :: past) w = true := by
  obtain ⟨kind, style⟩ := Bool.and_eq_true_iff.mp opens
  simp [isClosing, closes, closing, flat.openParens_eq, openParens_of_opening kind,
    beq_iff_eq.mp style]

theorem staysInline_of_split (flat : Flat past ps) {qs rs : List Phrase} {v : Phrase}
    (split : ps = qs ++ v :: rs) : staysInline (qs.reverse ++ past) v = true := by
  induction flat generalizing qs rs with
  | nil => simp at split
  | @item past ps p ordinary _ ih =>
    cases qs with
    | nil =>
      obtain ⟨rfl, -⟩ := List.cons.inj split
      simp [staysInline, ordinary]
    | cons q qs =>
      obtain ⟨rfl, later⟩ := List.cons.inj split
      simpa using ih later
  | @group past body after u w opens inside closes _ inner outer =>
    cases qs with
    | nil =>
      obtain ⟨rfl, -⟩ := List.cons.inj split
      simp [staysInline, opens]
    | cons q qs =>
      obtain ⟨rfl, later⟩ := List.cons.inj split
      -- The place is after the group, at its closing parenthesis, or in its body.
      rcases append_eq_append_cons later with ⟨z, rfl, beyond⟩ | ⟨z, within, -⟩
      · cases z with
        | nil =>
          obtain ⟨rfl, -⟩ := List.cons.inj beyond
          simpa [staysInline] using .inr (isClosing_inline inside opens closes)
        | cons d z =>
          obtain ⟨rfl, further⟩ := List.cons.inj beyond
          simpa using outer further
      · simpa using inner within

theorem clauseAfter_of_split (flat : Flat past ps) {qs rs : List Phrase} (split : ps = qs ++ rs) :
    clauseAfter (qs.reverse ++ past) = clauseAfter past := by
  apply clauseAfter_append
  intro p member
  obtain ⟨as, bs, within⟩ := List.append_of_mem (List.mem_reverse.mp member)
  have place : ps = as ++ p :: (bs ++ rs) := by simp [split, within]
  exact keyword?_of_staysInline (flat.staysInline_of_split place)

/-- Between two phrases of a flat text the line breaks after a comma only, and only in a clause
that lists its items. -/
theorem break_iff (flat : Flat past ps) (o : Options) {qs rs : List Phrase} {p v : Phrase}
    (split : ps = qs ++ p :: v :: rs) : '\n' ∈ separator o (qs.reverse ++ past) p v ↔
      p.isKind .comma = true ∧ (clauseAfter past).any Clause.breaksAfterComma = true := by
  have first := flat.staysInline_of_split split
  have next : ps = (qs ++ [p]) ++ v :: rs := by simp [split]
  have second := flat.staysInline_of_split next
  rw [List.reverse_append, List.reverse_singleton, List.append_assoc,
    List.singleton_append] at second
  have starts := startsLine_of_staysInline second
  have ends := endsLine_of_staysInline first
  rw [flat.clauseAfter_of_split split] at ends
  rw [separator, starts, ends, Bool.or_false, ← Bool.and_eq_true]
  split
  · rename_i breaks
    simp [breaks]
  · rename_i stays
    split <;> simp [stays]

end Flat

theorem separator_of_opening (o : Options) {past : List Phrase} {u : Phrase}
    (opens : isOpening .inline past u = true) (v : Phrase) : separator o past u v =
      if startsLine (u :: past) v = true then '\n' :: o.margin (level (u :: past) v)
      else if v.isKind .openParen then [' '] else [] := by
  simp only [isOpening, Bool.and_eq_true, beq_iff_eq] at opens
  obtain ⟨cs, rfl⟩ := eq_single_of_isKind opens.1
  have stays : endsLine past (.single ⟨.openParen, cs⟩) = false := by
    simp [endsLine, isOpening, isKind, opens.2]
  have style : opening (.single ⟨.openParen, cs⟩ :: past) = .block := rfl
  by_cases breaks : startsLine (.single ⟨.openParen, cs⟩ :: past) v = true
  · simp [separator, breaks]
  · rw [separator, stays, Bool.false_or, if_neg breaks, if_neg breaks]
    by_cases next : v.isKind .openParen = true
    · obtain ⟨ds, rfl⟩ := eq_single_of_isKind next
      simp [isAttached, isOpening, isClosing, isKind, style]
    · have plain : v.isKind .openParen = false := by simpa using next
      simp [isOpening, plain, opens.1, opens.2]

theorem separator_of_closing (o : Options) {past : List Phrase} {v u : Phrase}
    (closes : isClosing .inline (u :: past) v = true) :
    separator o past u v = if endsLine past u = true then ['\n'] else [] := by
  have attached : isAttached (u :: past) v = true := by simp [isAttached, closes]
  have stays : startsLine (u :: past) v = false := by
    apply startsLine_of_staysInline
    simp [staysInline, closes]
  have flush : level (u :: past) v = 0 := by rw [level, if_pos attached]
  simp [separator, attached, stays, flush, Options.margin]

end Layout

open Layout

section
variable {o : Options} {source : List Char} {past rest : List Phrase} {u v : Phrase}

theorem text_of_paren {p : Phrase} (member : p ∈ phrases source) (k : KeywordCase) :
    (p.isKind .openParen = true → p.text k = ['(']) ∧
      (p.isKind .closeParen = true → p.text k = [')']) := by
  rw [phrases, map_toLexeme_tokenize] at member
  rcases Phrase.mem_group member with ⟨c, -, rfl⟩ | ⟨l, inside, rfl⟩
  · simp [Phrase.isKind]
  · have read := (scans_lexemes source).reads_of_mem l inside
    cases read with
    | punctuation mark =>
      rcases punctuation?_cases mark with ⟨rfl, rfl⟩ | ⟨rfl, rfl⟩ | ⟨rfl, rfl⟩ | ⟨rfl, rfl⟩ <;>
        simp [Phrase.isKind, Phrase.text, Lexeme.normal]
    | _ => simp [Phrase.isKind]

theorem format_place (split : phrases source = past.reverse ++ v :: rest) : format o source =
    separated o [] past.reverse ++ separatorAfter o past v ++ v.text o.keywordCase ++
      separated o (v :: past) rest := by
  rw [format_eq_separated_phrases, split, separated_append, separated]
  simp

/-- A space follows an inline parenthesis if another one opens right after it, which is a block. -/
theorem space_after_opening (split : phrases source = past.reverse ++ u :: rest)
    (opens : isOpening .inline past u = true) :
    (separated o (u :: past) rest).head? = some ' ' ↔
      ∃ v ∈ rest.head?, v.isKind .openParen = true := by
  cases rest with
  | nil => simp [separated]
  | cons v rest =>
    have member : v ∈ phrases source := by simp [split]
    obtain ⟨-, c, cs, starts, solid⟩ := Phrase.solid_of_mem member o.keywordCase
    have visible : c ≠ ' ' := by
      rintro rfl
      cases solid
    rw [separated, separatorAfter, separator_of_opening o opens, starts]
    by_cases breaks : startsLine (u :: past) v = true
    · have other : v.isKind .openParen ≠ true := by
        intro next
        obtain ⟨ds, rfl⟩ := eq_single_of_isKind next
        cases breaks
      simp [breaks, other]
    · by_cases next : v.isKind .openParen = true <;> simp [breaks, next, visible]

theorem no_space_before_closing (split : phrases source = past.reverse ++ v :: rest)
    (closes : isClosing .inline past v = true) :
    (separated o [] past.reverse ++ separatorAfter o past v).getLast? ≠ some ' ' := by
  cases past with
  | nil => simp [isClosing, closing, openParens] at closes
  | cons u past =>
    rw [separatorAfter, separator_of_closing o closes]
    by_cases ends : endsLine past u = true
    · simp [ends]
    · obtain ⟨d, last, solid⟩ := solid_end (o := o) split
      rw [if_neg ends, List.append_nil, Option.mem_def.mp last]
      rintro ⟨⟩
      cases solid

/-! ### The line breaks in a group -/

section
variable {body : List Phrase} {w : Phrase}

theorem mem_body_of_comma {p : Phrase} (opens : isOpening .inline past u = true)
    (closes : w.isKind .closeParen = true) (member : p ∈ u :: (body ++ [w]))
    (comma : p.isKind .comma = true) : p ∈ body := by
  obtain ⟨cs, rfl⟩ := eq_single_of_isKind comma
  simp only [List.mem_cons, List.mem_append, List.not_mem_nil, or_false] at member
  rcases member with rfl | inside | rfl
  · cases opens
  · exact inside
  · cases closes

theorem comma_of_break (split : phrases source = past.reverse ++ u :: (body ++ w :: rest))
    (opens : isOpening .inline past u = true) (flat : Flat (u :: past) body)
    (closes : w.isKind .closeParen = true) {a b : List Char}
    (cut : separated o (u :: past) (body ++ [w]) = a ++ '\n' :: b)
    (outside : ¬ InsideVerbatim (format o source)
      (byteLength (separated o [] (u :: past).reverse ++ a))) :
    (clauseAfter past).any Clause.breaksAfterComma = true ∧
      ∃ p ∈ body, p.isKind .comma = true := by
  have whole : Flat past (u :: (body ++ [w])) := .group opens flat closes .nil
  obtain ⟨qs, v, rs, x, y, inner, lead, block, -⟩ := exists_block o cut
  have place : phrases source = (qs.reverse ++ u :: past).reverse ++ v :: (rs ++ rest) := by
    have regroup : body ++ w :: rest = (body ++ [w]) ++ rest := by simp
    rw [split, regroup, inner]
    simp
  rcases append_eq_append_cons block with ⟨z, here, text⟩ | ⟨z, sep, -⟩
  · -- The phrases of the group have no line break that is not in a literal.
    have member : v ∈ phrases source := by simp [place]
    rcases Phrase.blank_of_text member text (by decide) with verbatim | space
    · obtain ⟨l, rfl, verbatim, left, -⟩ := verbatim
      have inside := insideVerbatim_text (o := o) place verbatim text left (by simp)
      have joined : separated o [] (qs.reverse ++ u :: past).reverse ++
          separatorAfter o (qs.reverse ++ u :: past) (.single l) ++ z =
          separated o [] (u :: past).reverse ++ a := by
        rw [lead, here, List.reverse_append, List.reverse_reverse, separated_append]
        simp
      rw [joined] at inside
      exact absurd inside outside
    · exact absurd space.1 (by decide)
  · obtain ⟨ds, p, last⟩ := List.eq_nil_or_concat' (u :: qs) |>.resolve_left (by simp)
    have prior : qs.reverse ++ u :: past = p :: (ds.reverse ++ past) := by
      have turned := congrArg (fun ps => List.reverse ps ++ past) last
      simpa using turned
    have within : u :: (body ++ [w]) = ds ++ p :: v :: rs := by
      rw [inner, ← List.cons_append, last]
      simp
    rw [prior, separatorAfter] at sep
    obtain ⟨comma, lists⟩ := (whole.break_iff o within).mp (by simp [sep])
    exact ⟨lists, p, mem_body_of_comma opens closes (by simp [within]) comma, comma⟩

theorem break_after_comma (split : phrases source = past.reverse ++ u :: (body ++ w :: rest))
    (opens : isOpening .inline past u = true) (flat : Flat (u :: past) body)
    (closes : w.isKind .closeParen = true)
    (lists : (clauseAfter past).any Clause.breaksAfterComma = true) {p : Phrase} (member : p ∈ body)
    (comma : p.isKind .comma = true) :
    ∃ a b, separated o (u :: past) (body ++ [w]) = a ++ '\n' :: b ∧
      ¬ InsideVerbatim (format o source)
        (byteLength (separated o [] (u :: past).reverse ++ a)) := by
  have whole : Flat past (u :: (body ++ [w])) := .group opens flat closes .nil
  obtain ⟨qs, ps, rfl⟩ := List.append_of_mem member
  obtain ⟨v, rs, next⟩ := List.exists_cons_of_ne_nil (l := ps ++ [w]) (by simp)
  have within : u :: (qs ++ p :: ps ++ [w]) = (u :: qs) ++ p :: v :: rs := by
    rw [← next]
    simp
  have place : phrases source = (p :: (qs.reverse ++ u :: past)).reverse ++ v :: (rs ++ rest) := by
    have regroup : qs ++ p :: ps ++ w :: rest = qs ++ p :: (ps ++ [w] ++ rest) := by simp
    rw [split, regroup, next]
    simp
  have breaks := (whole.break_iff o within).mpr ⟨comma, lists⟩
  rw [List.reverse_cons, List.append_assoc, List.singleton_append] at breaks
  obtain ⟨margin, line⟩ : ∃ m, separator o (qs.reverse ++ u :: past) p v = '\n' :: m := by
    rcases separator_cases o (qs.reverse ++ u :: past) p v with line | none | space
    · exact ⟨_, line⟩
    · simp [none] at breaks
    · simp [space] at breaks
  refine ⟨separated o (u :: past) (qs ++ [p]), margin ++ v.text o.keywordCase ++
    separated o (v :: p :: (qs.reverse ++ u :: past)) rs, ?_, ?_⟩
  · have regroup : qs ++ p :: ps ++ [w] = (qs ++ [p]) ++ v :: rs := by
      rw [← next]
      simp
    have prior : (qs ++ [p]).reverse ++ u :: past = p :: (qs.reverse ++ u :: past) := by simp
    rw [regroup, separated_append, prior, separated, separatorAfter, line]
    simp
  · have outside := not_insideVerbatim_separator o place (List.nil_append _).symm
    have joined : separated o [] (p :: (qs.reverse ++ u :: past)).reverse ++ [] =
        separated o [] (u :: past).reverse ++ separated o (u :: past) (qs ++ [p]) := by
      have regroup : (p :: (qs.reverse ++ u :: past)).reverse =
          (u :: past).reverse ++ (qs ++ [p]) := by simp
      rw [regroup, separated_append]
      simp
    rw [joined] at outside
    exact outside

end
end

/-- Layout writes the inside of an inline group tight but for one case: a parenthesis right after
the opening one is a block and has a space before it. In a group of ordinary items and inline
groups the line breaks after the commas, and nowhere else, if the clause lists its items on lines
of their own. In all other clauses the group is on one line but for its literals. -/
theorem format_inline_groups (o : Options) (source : List Char) :
    (∀ past u rest, phrases source = past.reverse ++ u :: rest → isOpening .inline past u = true →
      format o source = separated o [] past.reverse ++ separatorAfter o past u ++
          '(' :: separated o (u :: past) rest ∧
        ((separated o (u :: past) rest).head? = some ' ' ↔
          ∃ v ∈ rest.head?, v.isKind .openParen = true)) ∧
    (∀ past w rest, phrases source = past.reverse ++ w :: rest → isClosing .inline past w = true →
      format o source = (separated o [] past.reverse ++ separatorAfter o past w) ++
          ')' :: separated o (w :: past) rest ∧
        (separated o [] past.reverse ++ separatorAfter o past w).getLast? ≠ some ' ') ∧
    ∀ past u body w rest, phrases source = past.reverse ++ u :: (body ++ w :: rest) →
      isOpening .inline past u = true → Flat (u :: past) body → w.isKind .closeParen = true →
      isClosing .inline (body.reverse ++ u :: past) w = true ∧
      format o source = separated o [] (u :: past).reverse ++
          separated o (u :: past) (body ++ [w]) ++
          separated o (w :: (body.reverse ++ u :: past)) rest ∧
        ((∃ a b, separated o (u :: past) (body ++ [w]) = a ++ '\n' :: b ∧
            ¬ InsideVerbatim (format o source)
              (byteLength (separated o [] (u :: past).reverse ++ a))) ↔
          (clauseAfter past).any Clause.breaksAfterComma = true ∧
            ∃ p ∈ body, p.isKind .comma = true) := by
  refine ⟨?_, ?_, ?_⟩
  · intro past u rest split opens
    have kind : u.isKind .openParen = true := (Bool.and_eq_true_iff.mp opens).1
    have member : u ∈ phrases source := by simp [split]
    refine ⟨?_, space_after_opening split opens⟩
    rw [format_place split, (text_of_paren member o.keywordCase).1 kind]
    simp
  · intro past w rest split closes
    have kind : w.isKind .closeParen = true := (Bool.and_eq_true_iff.mp closes).1
    have member : w ∈ phrases source := by simp [split]
    refine ⟨?_, no_space_before_closing split closes⟩
    rw [format_place split, (text_of_paren member o.keywordCase).2 kind]
    simp
  · intro past u body w rest split opens flat closes
    refine ⟨flat.isClosing_inline opens closes, ?_, ?_, ?_⟩
    · have regroup : past.reverse ++ u :: (body ++ w :: rest) =
          (u :: past).reverse ++ ((body ++ [w]) ++ rest) := by simp
      rw [format_eq_separated_phrases, split, regroup, separated_append, separated_append]
      simp
    · rintro ⟨a, b, cut, outside⟩
      exact comma_of_break split opens flat closes cut outside
    · rintro ⟨lists, p, member, comma⟩
      exact break_after_comma split opens flat closes lists member comma

/-- A call with two arguments is on two lines in a list of columns, and a parenthesis right inside
of a call has a space before it. -/
theorem format_call_breaks :
    (∃ past u body w rest, phrases "select coalesce(a, b) from t".toList =
        past.reverse ++ u :: (body ++ w :: rest) ∧ isOpening .inline past u = true ∧
        Flat (u :: past) body ∧ w.isKind .closeParen = true ∧
        separated {} (u :: past) (body ++ [w]) = "a,\nb)".toList) ∧
      (∃ past u rest, phrases "select f((a)) from t".toList = past.reverse ++ u :: rest ∧
        isOpening .inline past u = true ∧ (separated {} (u :: past) rest).head? = some ' ') ∧
      format {} "select coalesce(a, b) from t".toList = "SELECT coalesce(a,\nb)\nFROM t".toList ∧
      format {} "select f((a)) from t".toList = "SELECT f( (\n    a\n))\nFROM t".toList := by
  refine ⟨⟨[.single ⟨.word, "coalesce".toList⟩, .single ⟨.word, "select".toList⟩],
    .single ⟨.openParen, ['(']⟩,
    [.single ⟨.word, ['a']⟩, .single ⟨.comma, [',']⟩, .single ⟨.word, ['b']⟩],
    .single ⟨.closeParen, [')']⟩,
    [.single ⟨.word, "from".toList⟩, .single ⟨.word, ['t']⟩], ?_, ?_, ?_, ?_, ?_⟩,
    ⟨[.single ⟨.word, ['f']⟩, .single ⟨.word, "select".toList⟩], .single ⟨.openParen, ['(']⟩,
    [.single ⟨.openParen, ['(']⟩, .single ⟨.word, ['a']⟩, .single ⟨.closeParen, [')']⟩,
      .single ⟨.closeParen, [')']⟩, .single ⟨.word, "from".toList⟩, .single ⟨.word, ['t']⟩],
      ?_, ?_, ?_⟩, ?_, ?_⟩
  · decide +kernel
  · decide +kernel
  · apply Flat.item
    · decide +kernel
    · apply Flat.item
      · rfl
      · apply Flat.item
        · decide +kernel
        · exact .nil
  all_goals decide +kernel

end TidySql
