import TidySql.Proofs.Scanning
import TidySql.Token.Grammar

/-! The scan accepts exactly the grammar.
A rule of the grammar is what one step of the scan takes, in both directions. So the
grammar gives every text one list of tokens, and the scan over its bytes ends with it. -/
namespace TidySql
open Text Lexer

namespace Grammar

/- Quoted texts. -/

theorem cutQuoted_of_content {q : Char} {cs : List Char} (inside : Content q cs)
    (rest : List Char) : cutQuoted q (cs ++ rest) =
      (cs ++ (cutQuoted q rest).1, (cutQuoted q rest).2) := by
  induction inside with
  | nil => rfl
  | plain other single _ ih => rw [List.cons_append, cutQuoted_cons q _ _ single other, ih]; rfl
  | escaped _ ih => simp [cutQuoted, ih]
  | doubled _ ih => simp [cutQuoted, ih]

theorem cutQuoted_close {q : Char} {rest : List Char} (single : q ≠ '\\')
    (stop : rest.head? ≠ some q) : cutQuoted q (q :: rest) = ([q], rest) := by
  cases rest with
  | nil => rfl
  | cons d rest =>
    have different : d ≠ q := by simpa using stop
    simp [cutQuoted, single, different]

/-- A cut that starts with some content ends with the quote after it, or it runs to the end
of the text, where a last backslash may be left over. -/
def EndsAfter (q : Char) (body : List Char) (s : List Char × List Char) : Prop :=
  s.1 = body ++ [q] ∨ s.2 = [] ∧ (s.1 = body ∨ s.1 = body ++ ['\\'])

theorem EndsAfter.append {q : Char} {body : List Char} {s : List Char × List Char}
    (h : EndsAfter q body s) (a : List Char) : EndsAfter q (a ++ body) (a ++ s.1, s.2) := by
  rcases h with closed | ⟨none, whole | left⟩
  · exact .inl (by rw [closed, List.append_assoc])
  · exact .inr ⟨none, .inl (by rw [whole])⟩
  · exact .inr ⟨none, .inr (by rw [left, List.append_assoc])⟩

theorem content_of_cutQuoted (q : Char) (cs : List Char) :
    ∃ body, Content q body ∧ EndsAfter q body (cutQuoted q cs) := by
  fun_induction cutQuoted q cs with
  | case1 => exact ⟨[], .nil, .inr ⟨rfl, .inl rfl⟩⟩
  | case2 c =>
    by_cases closes : c = q
    · exact ⟨[], .nil, .inl (by rw [closes]; rfl)⟩
    · by_cases escape : c = '\\'
      · exact ⟨[], .nil, .inr ⟨rfl, .inr (by rw [escape]; rfl)⟩⟩
      · exact ⟨[c], .plain closes escape .nil, .inr ⟨rfl, .inl rfl⟩⟩
  | case3 c d cs paired s ih =>
    obtain ⟨body, inside, ends⟩ := ih
    have longer : Content q (c :: d :: body) := by
      rcases paired with rfl | ⟨rfl, rfl⟩
      · exact .escaped inside
      · exact .doubled inside
    exact ⟨c :: d :: body, longer, ends.append [c, d]⟩
  | case4 d cs => exact ⟨[], .nil, .inl rfl⟩
  | case5 c d cs unpaired other s ih =>
    obtain ⟨body, inside, ends⟩ := ih
    have longer : Content q (c :: body) := .plain other (fun h => unpaired (.inl h)) inside
    exact ⟨c :: body, longer, ends.append [c]⟩

/- Block comments. -/

theorem infix_cons_iff (c : Char) (cs : List Char) : ['*', '/'] <:+: c :: cs ↔
    (c = '*' ∧ cs.head? = some '/') ∨ ['*', '/'] <:+: cs := by
  have second : ['/'] <+: cs ↔ cs.head? = some '/' := by
    cases cs <;> simp [List.cons_prefix_cons, eq_comm]
  rw [List.infix_cons_iff, List.cons_prefix_cons, second, eq_comm]

theorem cutBlock_of_open {cs : List Char} (inside : ¬ ['*', '/'] <:+: cs) :
    cutBlock cs = (cs, []) := by
  induction cs with
  | nil => rfl
  | cons c cs ih =>
    rw [infix_cons_iff, not_or] at inside
    rw [cutBlock_cons c cs inside.1, ih inside.2]

theorem cutBlock_of_close {cs : List Char} (inside : ¬ ['*', '/'] <:+: cs ++ ['*'])
    (rest : List Char) :
    cutBlock (cs ++ '*' :: '/' :: rest) = (cs ++ ['*', '/'], rest) := by
  induction cs with
  | nil => rfl
  | cons c cs ih =>
    rw [List.cons_append, infix_cons_iff, not_or] at inside
    have first : (cs ++ '*' :: '/' :: rest).head? = (cs ++ ['*']).head? := by
      cases cs <;> rfl
    rw [List.cons_append, cutBlock_cons c _ (first ▸ inside.1), ih inside.2]
    rfl

theorem inside_of_cutBlock (cs : List Char) :
    (∃ body, (cutBlock cs).1 = body ++ ['*', '/'] ∧ ¬ ['*', '/'] <:+: body ++ ['*']) ∨
      (cutBlock cs).2 = [] ∧ ¬ ['*', '/'] <:+: (cutBlock cs).1 := by
  fun_induction cutBlock cs with
  | case1 => exact .inr ⟨rfl, by decide⟩
  | case2 c => exact .inr ⟨rfl, by simp [infix_cons_iff]⟩
  | case3 c d cs ends =>
    obtain ⟨rfl, rfl⟩ := ends
    exact .inl ⟨[], rfl, by decide⟩
  | case4 c d cs goes s ih =>
    have first : s.1.head? = some d := head?_cutBlock (d :: cs)
    rcases ih with ⟨body, whole, inside⟩ | ⟨none, inside⟩
    · refine .inl ⟨c :: body, congrArg (c :: ·) whole, ?_⟩
      have same : (body ++ ['*']).head? = some d := by
        rw [← first, show s.1 = body ++ ['*', '/'] from whole]
        cases body <;> rfl
      rw [List.cons_append, infix_cons_iff, same, Option.some_inj, not_or]
      exact ⟨goes, inside⟩
    · refine .inr ⟨none, ?_⟩
      rw [infix_cons_iff, first, Option.some_inj, not_or]
      exact ⟨goes, inside⟩

theorem ne_backslash_of_isQuote {q : Char} (mark : isQuote q = true) : q ≠ '\\' := by
  rintro rfl
  exact absurd mark (by decide)

theorem Rule.reads {l : Lexeme} {rest : List Char} (h : Rule l rest) : Reads l rest := by
  cases h with
  | @quoted q cs _ mark inside stop =>
    refine .quoted mark ?_
    rw [List.append_assoc, cutQuoted_of_content inside, List.singleton_append,
      cutQuoted_close (ne_backslash_of_isQuote mark) stop]
  | @openQuoted q cs mark inside =>
    refine .quoted mark ?_
    rw [cutQuoted_of_content inside]
    simp [cutQuoted]
  | @openEscape q cs mark inside =>
    refine .quoted mark ?_
    rw [List.append_nil, cutQuoted_of_content inside]
    rfl
  | lineComment inside stop => exact .line inside stop
  | @blockComment cs _ inside =>
    refine .block ?_
    rw [List.append_assoc]
    exact cutBlock_of_close inside rest
  | openComment inside =>
    refine .block ?_
    rw [List.append_nil, cutBlock_of_open inside]
  | punctuation mark => exact .punctuation mark
  | operatorPair mark => exact .pair mark
  | operator mark stop => exact .operator mark stop
  | word nonempty inside stop => exact .of_text nonempty (List.all_eq_true.mpr inside) stop

theorem Rule.of_reads {l : Lexeme} {rest : List Char} (h : Reads l rest) : Rule l rest := by
  cases h with
  | @quoted q cs _ mark body =>
    obtain ⟨content, inside, ends⟩ := content_of_cutQuoted q (cs ++ rest)
    have stop := head?_rest_cutQuoted q (cs ++ rest)
    rw [body] at ends stop
    rcases ends with rfl | ⟨rfl, rfl | rfl⟩
    · exact .quoted mark inside stop
    · exact .openQuoted mark inside
    · exact .openEscape mark inside
  | line inside stop => exact .lineComment inside stop
  | @block cs _ body =>
    have ends := inside_of_cutBlock (cs ++ rest)
    rw [body] at ends
    rcases ends with ⟨content, rfl, inside⟩ | ⟨rfl, inside⟩
    · exact .blockComment inside
    · exact .openComment inside
  | punctuation mark => exact .punctuation mark
  | pair mark => exact .operatorPair mark
  | operator mark stop => exact .operator mark stop
  | word inside stop => exact .word (by simp) inside stop

theorem Tokens.eq_place {n : Nat} {source : List Char} {ts : List Token}
    (h : Tokens n source ts) : ts = place n (pieces source) := by
  induction h with
  | nil => rw [pieces, place]
  | @blank n c rest ts white _ ih => rw [pieces_of_isBlank white, place, ih]
  | @lexeme n l rest ts rule _ ih => rw [pieces_of_reads rule.reads, place, ih]

theorem tokens_place (n : Nat) (source : List Char) :
    Tokens n source (place n (pieces source)) := by
  induction source using text_induction generalizing n with
  | nil =>
    rw [pieces]
    exact .nil
  | blank c rest blank ih =>
    rw [pieces_of_isBlank blank]
    exact .blank blank (ih _)
  | lexeme l rest read ih =>
    rw [pieces_of_reads read]
    exact .lexeme (.of_reads read) (ih _)

theorem tokens_iff (n : Nat) (source : List Char) (ts : List Token) :
    Tokens n source ts ↔ ts = place n (pieces source) := by
  constructor
  · exact Tokens.eq_place
  · rintro rfl
    exact tokens_place n source

theorem tokens_tokenize (source : List Char) : Tokens 0 source (tokenize source) := by
  rw [tokenize_eq]
  exact tokens_place 0 source

end Grammar

/-- The scan over bytes ends for every text. It cuts no character, and what it gives is the
one list of tokens that the grammar accepts. -/
theorem tokenize_grammar (source : List Char) :
    Scan.tokens? (encode source) = some (tokenize source) ∧
      ∀ ts, Grammar.Tokens 0 source ts ↔ ts = tokenize source := by
  constructor
  · rw [tokenize_eq, Scan.tokens?_encode]
  · intro ts
    rw [tokenize_eq]
    exact Grammar.tokens_iff 0 source ts

-- The backslash takes both bytes of a character, and the first star closes nothing.
example : (tokenize "'\\é'é/*/".toList).map Token.toLexeme =
    [⟨.quoted, "'\\é'".toList⟩, ⟨.word, ['é']⟩, ⟨.comment, "/*/".toList⟩] := by decide +kernel

end TidySql
