import TidySql.Proofs.Cuts

/-! The lexemes that the scan can read.
`Reads l rest` says by rules, one for each kind of lexeme, that the scan takes `l`
off a text that goes on with `rest`. It is what the scan does, and it tells which
other text may follow: a delimiter ends every lexeme but a line comment, which only
the end of its line ends, and an open text is read only where nothing follows. -/
namespace TidySql
open Text

namespace Lexer

inductive Reads : Lexeme → List Char → Prop where
  | quoted {q : Char} {cs rest : List Char} (mark : isQuote q = true)
      (body : cutQuoted q (cs ++ rest) = (cs, rest)) : Reads ⟨.quoted, q :: cs⟩ rest
  | line {cs rest : List Char} (body : ∀ c ∈ cs, isLineEnd c = false)
      (stop : ∀ d ∈ rest.head?, isLineEnd d = true) : Reads ⟨.comment, '-' :: '-' :: cs⟩ rest
  | block {cs rest : List Char} (body : cutBlock (cs ++ rest) = (cs, rest)) :
      Reads ⟨.comment, '/' :: '*' :: cs⟩ rest
  | punctuation {c : Char} {k : Kind} {rest : List Char} (mark : punctuation? c = some k) :
      Reads ⟨k, [c]⟩ rest
  | pair {c d : Char} {rest : List Char} (mark : isOperatorPair c d = true) :
      Reads ⟨.operator, [c, d]⟩ rest
  | operator {c : Char} {rest : List Char} (mark : isOperator c = true)
      (stop : ∀ d ∈ rest.head?, isOperatorPair c d = false ∧ ¬ (c = '-' ∧ d = '-') ∧
        ¬ (c = '/' ∧ d = '*')) : Reads ⟨.operator, [c]⟩ rest
  | word {c : Char} {cs rest : List Char} (body : ∀ d ∈ c :: cs, isWord d = true)
      (stop : ∀ d ∈ rest.head?, isWord d = false) : Reads ⟨.word, c :: cs⟩ rest

/-- A character that ends a lexeme of any kind but a comment. -/
def isDelimiter (c : Char) : Bool := isBlank c || (punctuation? c).isSome

theorem isQuote_facts (c : Char) (h : isQuote c = true) :
    isBlank c = false ∧ isDelimiter c = false := by
  simp only [isQuote, Bool.or_eq_true, beq_iff_eq] at h
  rcases h with (rfl | rfl) | rfl <;> decide

theorem isOperator_facts (c : Char) (h : isOperator c = true) :
    isBlank c = false ∧ isQuote c = false ∧ punctuation? c = none ∧ isDelimiter c = false := by
  have listed := List.contains_iff_mem.mp h
  simp only [List.mem_cons, List.not_mem_nil, or_false] at listed
  rcases listed with rfl | rfl | rfl | rfl | rfl | rfl | rfl | rfl | rfl <;> decide

theorem punctuation?_cases {c : Char} {k : Kind} (h : punctuation? c = some k) :
    (c = '(' ∧ k = .openParen) ∨ (c = ')' ∧ k = .closeParen) ∨ (c = ',' ∧ k = .comma) ∨
      (c = ';' ∧ k = .semicolon) := by
  unfold punctuation? at h
  split at h <;> simp_all

theorem punctuation?_facts {c : Char} {k : Kind} (h : punctuation? c = some k) :
    isBlank c = false ∧ isQuote c = false ∧ isOperator c = false := by
  rcases punctuation?_cases h with ⟨rfl, -⟩ | ⟨rfl, -⟩ | ⟨rfl, -⟩ | ⟨rfl, -⟩ <;> decide

theorem isWord_iff (c : Char) : isWord c = true ↔
    isBlank c = false ∧ isQuote c = false ∧ punctuation? c = none ∧ isOperator c = false := by
  simp [isWord, and_assoc]

/-- Only operators start comments. -/
theorem ne_of_not_isOperator {c : Char} (h : isOperator c = false) : c ≠ '-' ∧ c ≠ '/' := by
  constructor
  · rintro rfl
    exact absurd h (by decide)
  · rintro rfl
    exact absurd h (by decide)

theorem isDelimiter_facts (d : Char) (h : isDelimiter d = true) :
    isWord d = false ∧ isOperator d = false ∧ isQuote d = false := by
  refine ⟨?_, ?_, ?_⟩
  · rcases Bool.or_eq_true_iff.mp h with blank | mark
    · simp [isWord, blank]
    · simp [isWord, Option.isSome_iff_ne_none.mp mark]
  · rw [Bool.eq_false_iff]
    intro op
    exact Bool.false_ne_true ((isOperator_facts d op).2.2.2.symm.trans h)
  · rw [Bool.eq_false_iff]
    intro mark
    exact Bool.false_ne_true ((isQuote_facts d mark).2.symm.trans h)

theorem isOperatorPair_facts {c d : Char} (h : isOperatorPair c d = true) :
    isOperator c = true ∧ isOperator d = true ∧ c ≠ '-' ∧ c ≠ '/' := by
  simp only [isOperatorPair, Bool.or_eq_true, Bool.and_eq_true, beq_iff_eq] at h
  rcases h with ⟨rfl, rfl | rfl⟩ | ⟨rfl | rfl, rfl⟩ <;> decide

theorem Reads.line_of_cut (cs : List Char) :
    Reads ⟨.comment, '-' :: (cutLine ('-' :: cs)).1⟩ (cutLine ('-' :: cs)).2 := by
  change Reads ⟨.comment, '-' :: '-' :: (cutLine cs).1⟩ (cutLine cs).2
  refine .line ?_ ?_
  · intro c taken
    simpa using List.mem_takeWhile_imp taken
  · intro d first
    simpa using head?_dropWhile _ cs d first

theorem Reads.operator_of_cut (c : Char) (cs : List Char) (mark : isOperator c = true)
    (line : ¬ (c = '-' ∧ cs.head? = some '-')) (block : ¬ (c = '/' ∧ cs.head? = some '*')) :
    Reads ⟨.operator, c :: (cutOperator c cs).1⟩ (cutOperator c cs).2 := by
  cases cs with
  | nil => exact .operator mark (by simp [cutOperator])
  | cons d cs =>
    by_cases two : isOperatorPair c d = true
    · simp only [cutOperator, if_pos two]
      exact .pair two
    · simp only [cutOperator, if_neg two]
      refine .operator mark ?_
      rintro e ⟨rfl⟩
      exact ⟨by simpa using two, by simpa using line, by simpa using block⟩

theorem Reads.word_of_cut (c : Char) (cs : List Char) (first : isWord c = true) :
    Reads ⟨.word, c :: (cutWord cs).1⟩ (cutWord cs).2 := by
  refine .word ?_ (head?_dropWhile _ cs)
  intro d taken
  rcases List.mem_cons.mp taken with rfl | taken
  · exact first
  · exact List.mem_takeWhile_imp taken

theorem Reads.of_next {c : Char} {cs rest : List Char} {l : Lexeme}
    (h : next c cs = (.lexeme l, rest)) : Reads l rest := by
  unfold next at h
  split at h
  · cases h
  · rename_i solid
    obtain ⟨hl, rfl⟩ := Prod.mk.inj h
    cases hl
    unfold cut
    split
    · rename_i mark
      exact .quoted mark (by rw [cutQuoted_append])
    · rename_i unquoted
      split
      · rename_i dash
        obtain ⟨ds, rfl⟩ := List.head?_eq_some_iff.mp dash.2
        obtain rfl := dash.1
        exact .line_of_cut ds
      · rename_i line
        split
        · rename_i slash
          obtain ⟨ds, rfl⟩ := List.head?_eq_some_iff.mp slash.2
          obtain rfl := slash.1
          exact .block (by rw [List.tail_cons, cutBlock_append])
        · rename_i block
          split
          · rename_i k mark
            exact .punctuation mark
          · rename_i unmarked
            split
            · rename_i op
              exact .operator_of_cut c cs op line block
            · rename_i operand
              exact .word_of_cut c cs ((isWord_iff c).mpr
                ⟨by simpa using solid, by simpa using unquoted, unmarked, by simpa using operand⟩)

theorem isBlank_of_next {c d : Char} {cs rest : List Char} (h : next c cs = (.blank d, rest)) :
    isBlank d = true := by
  unfold next at h
  split at h
  · rename_i blank
    cases h
    exact blank
  · cases h

theorem cut_operator (c : Char) (cs : List Char) (mark : isOperator c = true)
    (line : ¬ (c = '-' ∧ cs.head? = some '-')) (block : ¬ (c = '/' ∧ cs.head? = some '*')) :
    cut c cs = (.operator, cutOperator c cs) := by
  have f := isOperator_facts c mark
  simp [cut, f.2.1, line, block, f.2.2.1, mark]

/-- The rules are complete: what they read, the scan takes. -/
theorem Reads.next_eq {l : Lexeme} {rest : List Char} (h : Reads l rest) :
    ∃ c cs, l.text = c :: cs ∧ isBlank c = false ∧ next c (cs ++ rest) = (.lexeme l, rest) := by
  cases h with
  | @quoted q cs _ mark body =>
    have solid := (isQuote_facts q mark).1
    exact ⟨q, cs, rfl, solid, by simp [next, cut, solid, mark, body]⟩
  | @line cs _ body stop =>
    have inside : ∀ c ∈ '-' :: cs, (!isLineEnd c) = true := by
      simpa using And.intro (by decide : isLineEnd '-' = false) body
    have ends : ∀ d ∈ rest.head?, (!isLineEnd d) = false := by simpa using stop
    have span := span_exact (fun c => !isLineEnd c) ('-' :: cs) rest inside ends
    refine ⟨'-', '-' :: cs, rfl, by decide, ?_⟩
    have taken : cutLine ('-' :: cs ++ rest) = ('-' :: cs, rest) := Prod.ext span.1 span.2
    simp only [next, cut, List.cons_append, List.head?_cons] at taken ⊢
    rw [taken]
    rfl
  | @block cs _ body =>
    refine ⟨'/', '*' :: cs, rfl, by decide, ?_⟩
    simp only [next, cut, List.cons_append, List.head?_cons, List.tail_cons, body]
    rfl
  | @punctuation c k _ mark =>
    have f := punctuation?_facts mark
    obtain ⟨line, block⟩ := ne_of_not_isOperator f.2.2
    exact ⟨c, [], rfl, f.1, by simp [next, cut, f.1, f.2.1, line, block, mark]⟩
  | @pair c d _ mark =>
    have f := isOperatorPair_facts mark
    have solid := (isOperator_facts c f.1).1
    refine ⟨c, [d], rfl, solid, ?_⟩
    rw [next, if_neg (by simp [solid]), cut_operator c _ f.1 (by simp [f.2.2.1])
      (by simp [f.2.2.2])]
    simp [cutOperator, mark]
  | @operator c _ mark stop =>
    have solid := (isOperator_facts c mark).1
    refine ⟨c, [], rfl, solid, ?_⟩
    have line : ¬ (c = '-' ∧ rest.head? = some '-') := fun h => (stop '-' h.2).2.1 ⟨h.1, rfl⟩
    have block : ¬ (c = '/' ∧ rest.head? = some '*') := fun h => (stop '*' h.2).2.2 ⟨h.1, rfl⟩
    rw [next, if_neg (by simp [solid]), List.nil_append, cut_operator c rest mark line block]
    cases rest with
    | nil => rfl
    | cons d rest => simp [cutOperator, (stop d rfl).1]
  | @word c cs _ body stop =>
    have f := (isWord_iff c).mp (body c List.mem_cons_self)
    have span := span_exact isWord cs rest (fun d hd => body d (List.mem_cons_of_mem _ hd)) stop
    obtain ⟨line, block⟩ := ne_of_not_isOperator f.2.2.2
    refine ⟨c, cs, rfl, f.1, ?_⟩
    simp [next, cut, cutWord, f, line, block, span]

/-- What a text may go on with after a closed lexeme of the kind. -/
def Separated : Kind → List Char → Prop
  | .openParen, _ => True
  | .comment, rest => ∀ d ∈ rest.head?, isLineEnd d = true
  | _, rest => ∀ d ∈ rest.head?, isDelimiter d = true

theorem separated_nil (k : Kind) : Separated k [] := by
  cases k <;> simp [Separated]

/-- A lexeme that something follows is closed, and is read before every separator. -/
theorem Reads.of_closed {l : Lexeme} {e : Char} {r rest : List Char} (h : Reads l (e :: r))
    (apart : Separated l.kind rest) : Reads l rest := by
  cases h with
  | @quoted q cs _ mark body =>
    have different : rest.head? ≠ some q := by
      intro first
      exact Bool.false_ne_true ((isQuote_facts q mark).2.symm.trans (apart q first))
    exact .quoted mark (cutQuoted_append_of_closed body different)
  | line body stop => exact .line body apart
  | block body => exact .block (cutBlock_append_of_closed body rest)
  | punctuation mark => exact .punctuation mark
  | pair mark => exact .pair mark
  | @operator c _ mark stop =>
    refine .operator mark ?_
    intro d first
    have delimiter : isDelimiter d = true := apart d first
    have plain := (isDelimiter_facts d delimiter).2.1
    refine ⟨?_, ?_, ?_⟩
    · rw [Bool.eq_false_iff]
      intro two
      exact Bool.false_ne_true (plain.symm.trans (isOperatorPair_facts two).2.1)
    · rintro ⟨-, rfl⟩
      exact absurd delimiter (by decide)
    · rintro ⟨-, rfl⟩
      exact absurd delimiter (by decide)
  | word body stop => exact .word body fun d first => (isDelimiter_facts d (apart d first)).1

/-- A lexeme is read from its own text alone. -/
theorem Reads.alone {l : Lexeme} {rest : List Char} (h : Reads l rest) : Reads l [] := by
  cases h with
  | @quoted q cs _ mark body =>
    refine .quoted mark ?_
    rw [List.append_nil]
    exact cutQuoted_of_beginning q (cs ++ rest) cs [] (by simp [body])
  | line body stop => exact .line body (by simp)
  | @block cs _ body =>
    refine .block ?_
    rw [List.append_nil]
    exact cutBlock_of_beginning (cs ++ rest) cs [] (by simp [body])
  | punctuation mark => exact .punctuation mark
  | pair mark => exact .pair mark
  | operator mark stop => exact .operator mark (by simp)
  | word body stop => exact .word body (by simp)

end Lexer

open Lexer

theorem pieces_of_reads {l : Lexeme} {rest : List Char} (h : Reads l rest) :
    pieces (l.text ++ rest) = .lexeme l :: pieces rest := by
  obtain ⟨c, cs, text, -, taken⟩ := h.next_eq
  rw [text, List.cons_append, pieces_cons, taken]

theorem lexemes_of_reads {l : Lexeme} {rest : List Char} (h : Reads l rest) :
    lexemes (l.text ++ rest) = l :: lexemes rest := by
  rw [lexemes, pieces_of_reads h]
  rfl

theorem pieces_of_isBlank {c : Char} (blank : isBlank c = true) (rest : List Char) :
    pieces (c :: rest) = .blank c :: pieces rest := by
  rw [pieces_cons, next, if_pos blank]

theorem lexemes_of_isBlank {c : Char} (blank : isBlank c = true) (rest : List Char) :
    lexemes (c :: rest) = lexemes rest := by
  rw [lexemes, pieces_of_isBlank blank]
  rfl

theorem pieces_append_of_allBlank (b text : List Char) (blank : allBlank b = true) :
    pieces (b ++ text) = b.map Piece.blank ++ pieces text := by
  induction b with
  | nil => rfl
  | cons c b ih =>
    simp only [allBlank, List.all_cons, Bool.and_eq_true] at blank
    rw [List.cons_append, pieces_of_isBlank blank.1, ih blank.2]
    rfl

theorem filterMap_map_blank (b : List Char) :
    (b.map Piece.blank).filterMap Piece.lexeme? = [] := by
  simp [List.filterMap_map, Function.comp_def, Piece.lexeme?]

theorem lexemes_append_of_allBlank (b text : List Char) (blank : allBlank b = true) :
    lexemes (b ++ text) = lexemes text := by
  rw [lexemes, pieces_append_of_allBlank b text blank, List.filterMap_append, filterMap_map_blank]
  rfl

/-- What holds of the empty text, and of a text from what is left of it after its first piece, holds
of every text. -/
@[elab_as_elim]
theorem text_induction {motive : List Char → Prop} (source : List Char) (nil : motive [])
    (blank : ∀ c rest, isBlank c = true → motive rest → motive (c :: rest))
    (lexeme : ∀ l rest, Reads l rest → motive rest → motive (l.text ++ rest)) : motive source := by
  fun_induction pieces source with
  | case1 => exact nil
  | case2 c cs p rest taken ih =>
    have whole := next_append c cs
    rw [taken] at whole
    rw [← whole]
    cases p with
    | blank d => exact blank d rest (isBlank_of_next taken) ih
    | lexeme l => exact lexeme l rest (Reads.of_next taken) ih

/-- The first piece of a text is a lexeme that is read there. -/
theorem Lexer.Reads.of_pieces {l : Lexeme} {rest : List Char} {ps : List Piece}
    (first : pieces (l.text ++ rest) = .lexeme l :: ps) : Reads l rest := by
  cases source : l.text ++ rest with
  | nil => simp [source, pieces] at first
  | cons c cs =>
    have whole := next_append c cs
    rw [source, pieces_cons, List.cons.injEq] at first
    rw [first.1, ← source] at whole
    have same : (next c cs).2 = rest := List.append_cancel_left whole
    exact Reads.of_next (Prod.ext first.1 same)

/-- A list of lexemes that some text holds. Each but the last is closed, since
something follows it. -/
inductive Scans : List Lexeme → Prop where
  | nil : Scans []
  | last {l : Lexeme} (alone : Reads l []) : Scans [l]
  | cons {l m : Lexeme} {ls : List Lexeme} {e : Char} {r : List Char} (closed : Reads l (e :: r))
      (tail : Scans (m :: ls)) : Scans (l :: m :: ls)

theorem scans_lexemes (source : List Char) : Scans (lexemes source) := by
  induction source using text_induction with
  | nil =>
    rw [lexemes, pieces]
    exact .nil
  | blank c rest blank ih =>
    rw [lexemes_of_isBlank blank]
    exact ih
  | lexeme l rest read ih =>
    rw [lexemes_of_reads read]
    cases tail : lexemes rest with
    | nil => exact .last read.alone
    | cons m ls =>
      cases rest with
      | nil => simp [lexemes, pieces] at tail
      | cons e r => exact .cons read (tail ▸ ih)

theorem Scans.tail {l : Lexeme} {ls : List Lexeme} (h : Scans (l :: ls)) : Scans ls := by
  cases h with
  | last => exact .nil
  | cons _ tail => exact tail

theorem Scans.head {l : Lexeme} {ls : List Lexeme} (h : Scans (l :: ls)) : Reads l [] := by
  cases h with
  | last alone => exact alone
  | cons closed => exact closed.alone

theorem Scans.reads_of_mem {ls : List Lexeme} (h : Scans ls) : ∀ l ∈ ls, Reads l [] := by
  induction h with
  | nil => simp
  | last alone => simpa using alone
  | cons closed _ ih => exact List.forall_mem_cons.mpr ⟨closed.alone, ih⟩

/-- The first lexeme of a list is read where the rest of the list is separated from it. -/
theorem Scans.reads {l : Lexeme} {ls : List Lexeme} (h : Scans (l :: ls)) {rest : List Char}
    (apart : Separated l.kind rest) (ends : ls = [] → rest = []) : Reads l rest := by
  cases h with
  | last alone => exact ends rfl ▸ alone
  | cons closed => exact closed.of_closed apart

end TidySql
