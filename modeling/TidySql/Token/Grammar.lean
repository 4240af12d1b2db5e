import TidySql.Token.Lexer

/-! The grammar of the tokens, over characters.
It says which texts are lexemes of each kind and what a lexeme may be followed by. The
second part makes it deterministic: a text is read as far as its kind goes. The scan over
bytes accepts exactly this grammar. -/
namespace TidySql.Grammar
open Text Lexer

/-- What may stand between two quotes `q`: a backslash with the character after it, two
quotes in a row, and every other character by itself. -/
inductive Content (q : Char) : List Char → Prop where
  | nil : Content q []
  | plain {c : Char} {cs : List Char} (inside : c ≠ q) (single : c ≠ '\\') (tail : Content q cs) :
      Content q (c :: cs)
  | escaped {c : Char} {cs : List Char} (tail : Content q cs) : Content q ('\\' :: c :: cs)
  | doubled {cs : List Char} (tail : Content q cs) : Content q (q :: q :: cs)

/-- `Rule l rest`: the lexeme `l` is read where the text goes on with `rest`. -/
inductive Rule : Lexeme → List Char → Prop where
  | quoted {q : Char} {cs rest : List Char} (mark : isQuote q = true) (inside : Content q cs)
      (stop : rest.head? ≠ some q) : Rule ⟨.quoted, q :: (cs ++ [q])⟩ rest
  | openQuoted {q : Char} {cs : List Char} (mark : isQuote q = true) (inside : Content q cs) :
      Rule ⟨.quoted, q :: cs⟩ []
  -- A backslash at the very end has no character to take with it.
  | openEscape {q : Char} {cs : List Char} (mark : isQuote q = true) (inside : Content q cs) :
      Rule ⟨.quoted, q :: (cs ++ ['\\'])⟩ []
  | lineComment {cs rest : List Char} (inside : ∀ c ∈ cs, isLineEnd c = false)
      (stop : ∀ d ∈ rest.head?, isLineEnd d = true) : Rule ⟨.comment, '-' :: '-' :: cs⟩ rest
  -- The star that opens the comment is outside of `cs`, so it cannot close it.
  | blockComment {cs rest : List Char} (inside : ¬ ['*', '/'] <:+: cs ++ ['*']) :
      Rule ⟨.comment, '/' :: '*' :: (cs ++ ['*', '/'])⟩ rest
  | openComment {cs : List Char} (inside : ¬ ['*', '/'] <:+: cs) :
      Rule ⟨.comment, '/' :: '*' :: cs⟩ []
  | punctuation {c : Char} {k : Kind} {rest : List Char} (mark : punctuation? c = some k) :
      Rule ⟨k, [c]⟩ rest
  | operatorPair {c d : Char} {rest : List Char} (mark : isOperatorPair c d = true) :
      Rule ⟨.operator, [c, d]⟩ rest
  | operator {c : Char} {rest : List Char} (mark : isOperator c = true)
      (stop : ∀ d ∈ rest.head?, isOperatorPair c d = false ∧ ¬ (c = '-' ∧ d = '-') ∧
        ¬ (c = '/' ∧ d = '*')) : Rule ⟨.operator, [c]⟩ rest
  | word {cs rest : List Char} (nonempty : cs ≠ []) (inside : ∀ c ∈ cs, isWord c = true)
      (stop : ∀ d ∈ rest.head?, isWord d = false) : Rule ⟨.word, cs⟩ rest

/-- `Tokens n text ts`: the tokens of a text that stands at byte `n` of its source. -/
inductive Tokens : Nat → List Char → List Token → Prop where
  | nil {n : Nat} : Tokens n [] []
  | blank {n : Nat} {c : Char} {rest : List Char} {ts : List Token} (white : isBlank c = true)
      (tail : Tokens (n + c.utf8Size) rest ts) : Tokens n (c :: rest) ts
  | lexeme {n : Nat} {l : Lexeme} {rest : List Char} {ts : List Token} (rule : Rule l rest)
      (tail : Tokens (n + byteLength l.text) rest ts) :
      Tokens n (l.text ++ rest) (⟨l, n, n + byteLength l.text⟩ :: ts)

end TidySql.Grammar
