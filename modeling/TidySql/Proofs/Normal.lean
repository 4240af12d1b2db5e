import TidySql.Keyword
import TidySql.Proofs.Reading
import TidySql.Proofs.Text

/-! The normal form of a lexeme.
Layout writes a reserved word in the case it is asked for and trims comments and
unclosed quotes. A lexeme in normal form is still read before the same text, and the
last of several cases wins. -/
namespace TidySql
open Text Lexer

namespace KeywordCase

theorem upper_apply (k : KeywordCase) (cs : List Char) :
    Text.upper (k.apply cs) = Text.upper cs := by
  cases k with
  | upper => rfl
  | lower => exact upper_lower cs

theorem all_isWord_apply (k : KeywordCase) (cs : List Char) :
    (k.apply cs).all isWord = cs.all isWord := by
  cases k with
  | upper => rfl
  | lower => exact all_isWord_lower cs

theorem length_apply (k : KeywordCase) (cs : List Char) : (k.apply cs).length = cs.length := by
  cases k with
  | upper => rfl
  | lower => exact length_lower cs

end KeywordCase

namespace Lexeme

def normal (k : KeywordCase) (l : Lexeme) : Lexeme :=
  match l.kind with
  | .word => if Keyword.isReserved (upper l.text) then ⟨.word, k.apply (upper l.text)⟩ else l
  | .comment => ⟨.comment, trim l.text⟩
  | .quoted => ⟨.quoted, trimEnd l.text⟩
  | _ => l

variable (k : KeywordCase)

theorem normal_reserved (cs : List Char) (h : Keyword.isReserved (upper cs) = true) :
    normal k ⟨.word, cs⟩ = ⟨.word, k.apply (upper cs)⟩ := if_pos h

theorem normal_name (cs : List Char) (h : Keyword.isReserved (upper cs) = false) :
    normal k ⟨.word, cs⟩ = ⟨.word, cs⟩ := if_neg (by simp [h])

@[simp] theorem kind_normal (l : Lexeme) : (l.normal k).kind = l.kind := by
  obtain ⟨kind, cs⟩ := l
  cases kind with
  | word => by_cases h : Keyword.isReserved (upper cs) = true <;> simp [normal, h]
  | _ => rfl

theorem upper_normal (cs : List Char) : upper (normal k ⟨.word, cs⟩).text = upper cs := by
  by_cases h : Keyword.isReserved (upper cs) = true
  · rw [normal_reserved k cs h, KeywordCase.upper_apply, upper_upper]
  · rw [normal_name k cs (by simpa using h)]

theorem normal_normal (k' : KeywordCase) (l : Lexeme) :
    (l.normal k').normal k = l.normal k := by
  obtain ⟨kind, cs⟩ := l
  cases kind with
  | word =>
    by_cases h : Keyword.isReserved (upper cs) = true
    · have same : upper (k'.apply (upper cs)) = upper cs := by
        rw [KeywordCase.upper_apply, upper_upper]
      rw [normal_reserved k' cs h, normal_reserved k cs h, normal_reserved k _ (by rw [same]; exact h), same]
    · rw [normal_name k' cs (by simpa using h)]
  | comment => exact congrArg (Lexeme.mk .comment) (trim_trim cs)
  | quoted => exact congrArg (Lexeme.mk .quoted) (trimEnd_trimEnd cs)
  | _ => rfl

end Lexeme

namespace Lexer

theorem Reads.of_text {cs rest : List Char} (nonempty : cs ≠ []) (body : cs.all isWord = true)
    (stop : ∀ d ∈ rest.head?, isWord d = false) : Reads ⟨.word, cs⟩ rest := by
  cases cs with
  | nil => exact absurd rfl nonempty
  | cons c cs => exact .word (List.all_eq_true.mp body) stop

theorem trimEnd_cutQuoted {q : Char} (mark : isQuote q = true) (cs : List Char)
    (closed : (cutQuoted q cs).2 ≠ []) : trimEnd (cutQuoted q cs).1 = (cutQuoted q cs).1 := by
  rw [trimEnd_eq_self_iff, getLast?_cutQuoted q cs closed]
  simp [(isQuote_facts q mark).1]

theorem trimEnd_cutBlock (cs : List Char) (closed : (cutBlock cs).2 ≠ []) :
    trimEnd (cutBlock cs).1 = (cutBlock cs).1 := by
  rw [trimEnd_eq_self_iff, getLast?_cutBlock cs closed]
  simp
  decide

/-- What a cut takes can be trimmed: it ends in no blank unless the text ends with it, and
there each beginning of it is taken whole. -/
theorem trimmed_of_cut {scan : List Char → List Char × List Char}
    (beginning : ∀ cs a b, (scan cs).1 = a ++ b → scan a = (a, []))
    (solid : ∀ cs, (scan cs).2 ≠ [] → trimEnd (scan cs).1 = (scan cs).1) {cs rest : List Char}
    (body : scan (cs ++ rest) = (cs, rest)) : scan (trimEnd cs ++ rest) = (trimEnd cs, rest) := by
  cases rest with
  | nil =>
    obtain ⟨b, -, whole⟩ := trimEnd_append_blanks cs
    rw [List.append_nil]
    exact beginning (cs ++ []) (trimEnd cs) b (by rw [body, whole])
  | cons e r =>
    have same := solid (cs ++ e :: r) (by simp [body])
    rw [body] at same
    rw [show trimEnd cs = cs from same]
    exact body

theorem Reads.trimEnd_quoted {l : Lexeme} {e : Char} {r : List Char} (h : Reads l (e :: r))
    (quoted : l.kind = .quoted) : trimEnd l.text = l.text := by
  cases h with
  | @quoted q cs _ mark body =>
    have same := trimEnd_cutQuoted mark (cs ++ e :: r) (by simp [body])
    rw [body] at same
    rw [trimEnd_cons q cs (isQuote_facts q mark).1, show trimEnd cs = cs from same]
  | punctuation mark =>
    obtain rfl : _ = Kind.quoted := quoted
    simpa using punctuation?_cases mark
  | _ => cases quoted

theorem trim_opening (c d : Char) (cs : List Char) (first : isBlank c = false)
    (second : isBlank d = false) : trim (c :: d :: cs) = c :: d :: trimEnd cs := by
  rw [trim_of_solid _ (by simp [first]), trimEnd_cons c _ first, trimEnd_cons d _ second]

/-- A lexeme in normal form is read before the same text. -/
theorem Reads.normal {l : Lexeme} {rest : List Char} (h : Reads l rest) (k : KeywordCase) :
    Reads (l.normal k) rest := by
  cases h with
  | @quoted q cs _ mark body =>
    have solid := (isQuote_facts q mark).1
    have form : Lexeme.normal k ⟨.quoted, q :: cs⟩ = ⟨.quoted, q :: trimEnd cs⟩ :=
      congrArg (Lexeme.mk .quoted) (trimEnd_cons q cs solid)
    rw [form]
    exact .quoted mark (trimmed_of_cut (cutQuoted_of_beginning q) (trimEnd_cutQuoted mark) body)
  | @line cs _ body stop =>
    have form : Lexeme.normal k ⟨.comment, '-' :: '-' :: cs⟩ =
        ⟨.comment, '-' :: '-' :: trimEnd cs⟩ :=
      congrArg (Lexeme.mk .comment) (trim_opening '-' '-' cs (by decide) (by decide))
    rw [form]
    obtain ⟨b, -, whole⟩ := trimEnd_append_blanks cs
    refine .line (fun c inside => body c ?_) stop
    rw [← whole]
    exact List.mem_append_left b inside
  | @block cs _ body =>
    have form : Lexeme.normal k ⟨.comment, '/' :: '*' :: cs⟩ =
        ⟨.comment, '/' :: '*' :: trimEnd cs⟩ :=
      congrArg (Lexeme.mk .comment) (trim_opening '/' '*' cs (by decide) (by decide))
    rw [form]
    exact .block (trimmed_of_cut cutBlock_of_beginning trimEnd_cutBlock body)
  | @punctuation c k' _ mark =>
    have form : Lexeme.normal k ⟨k', [c]⟩ = ⟨k', [c]⟩ := by
      rcases punctuation?_cases mark with ⟨-, rfl⟩ | ⟨-, rfl⟩ | ⟨-, rfl⟩ | ⟨-, rfl⟩ <;> rfl
    rw [form]
    exact .punctuation mark
  | pair mark => exact .pair mark
  | operator mark stop => exact .operator mark stop
  | @word c cs _ body stop =>
    by_cases h : Keyword.isReserved (upper (c :: cs)) = true
    · rw [Lexeme.normal_reserved k _ h]
      refine .of_text ?_ ?_ stop
      · intro empty
        have := congrArg List.length empty
        simp [KeywordCase.length_apply, length_upper] at this
      · rw [KeywordCase.all_isWord_apply, all_isWord_upper]
        exact List.all_eq_true.mpr body
    · rw [Lexeme.normal_name k _ (by simpa using h)]
      exact .word body stop

theorem Reads.text_ne_nil {l : Lexeme} {rest : List Char} (h : Reads l rest) : l.text ≠ [] := by
  cases h <;> simp

/-- Only comments and quoted texts hold blanks. -/
theorem Reads.solid {l : Lexeme} {rest : List Char} (h : Reads l rest) (comment : l.kind ≠ .comment)
    (quoted : l.kind ≠ .quoted) : ∀ c ∈ l.text, isBlank c = false := by
  cases h with
  | quoted => exact absurd rfl quoted
  | line | block => exact absurd rfl comment
  | punctuation mark => simpa using (punctuation?_facts mark).1
  | pair mark =>
    have f := isOperatorPair_facts mark
    simpa using And.intro (isOperator_facts _ f.1).1 (isOperator_facts _ f.2.1).1
  | operator mark => simpa using (isOperator_facts _ mark).1
  | word body => exact fun c inside => ((isWord_iff c).mp (body c inside)).1

theorem Reads.trimEnd_text {l : Lexeme} {rest : List Char} (h : Reads l rest)
    (comment : l.kind ≠ .comment) (quoted : l.kind ≠ .quoted) : trimEnd l.text = l.text := by
  rw [trimEnd_eq_self_iff]
  intro c last
  exact h.solid comment quoted c (List.mem_of_getLast? last)

theorem Reads.trimEnd_normal {l : Lexeme} {rest : List Char} (h : Reads l rest) (k : KeywordCase) :
    trimEnd (l.normal k).text = (l.normal k).text := by
  have read := h.normal k
  obtain ⟨kind, cs⟩ := l
  by_cases quoted : kind = .quoted
  · obtain rfl := quoted
    exact trimEnd_trimEnd cs
  · by_cases comment : kind = .comment
    · obtain rfl := comment
      exact trimEnd_trimEnd (trimStart cs)
    · exact read.trimEnd_text (by simpa using comment) (by simpa using quoted)

/-- A clause keyword that the scan reads as one word is reserved. -/
theorem Reads.isReserved_of_isClause {cs rest : List Char} (h : Reads ⟨.word, cs⟩ rest)
    (clause : Keyword.isClause (upper cs) = true) : Keyword.isReserved (upper cs) = true := by
  have body : (upper cs).all isWord = true := by
    rw [all_isWord_upper]
    cases h with
    | word body => exact List.all_eq_true.mpr body
    | punctuation mark => simpa using punctuation?_cases mark
  refine Keyword.isReserved_of_isClause _ (List.contains_iff_mem.mp clause) ?_
  intro space
  exact absurd (List.all_eq_true.mp body ' ' space) (by decide)

end Lexer

theorem Scans.normal {ls : List Lexeme} (h : Scans ls) (k : KeywordCase) :
    Scans (ls.map (Lexeme.normal k)) := by
  induction h with
  | nil => exact .nil
  | last alone => exact .last (alone.normal k)
  | cons closed _ ih => exact .cons (closed.normal k) ih

end TidySql
