import TidySql.Proofs.Comparison

/-! A text that is cut where a token ends.
The scan takes the same pieces from the two parts as from the whole: what stands before the cut has
ended there, whatever follows, and nothing of it is left when the scan goes on. So the tokens of the
second part are those after the cut, with their spans counted from it. -/
namespace TidySql
open Text Lexer

/-- The token of a text that stands `n` bytes later. -/
def Token.later (n : Nat) (t : Token) : Token :=
  { t with start := n + t.start, stop := n + t.stop }

theorem place_add (n m : Nat) (ps : List Piece) :
    place (n + m) ps = (place m ps).map (Token.later n) := by
  induction ps generalizing m with
  | nil => rfl
  | cons p ps ih =>
    cases p with
    | blank c => rw [place, place, Nat.add_assoc, ih]
    | lexeme l =>
      rw [place, place, List.map_cons, Nat.add_assoc, ih]
      rfl

/-- The text that the pieces spell. -/
def spelled (ps : List Piece) : List Char := (ps.map Piece.text).flatten

theorem spelled_append (ps qs : List Piece) : spelled (ps ++ qs) = spelled ps ++ spelled qs := by
  rw [spelled, List.map_append, List.flatten_append]
  rfl

theorem spelled_cons (p : Piece) (ps : List Piece) : spelled (p :: ps) = p.text ++ spelled ps := rfl

/-- A lexeme is read before a shorter text too, as only the first character after it counts. -/
theorem Lexer.Reads.of_append {l : Lexeme} {a b : List Char} (h : Reads l (a ++ b)) :
    Reads l a := by
  cases a with
  | nil => exact h.alone
  | cons e r => exact Reads.of_same_head (r := r ++ b) h r

theorem pieces_spelled {source : List Char} {ps : List Piece} (whole : pieces source = ps) :
    pieces (spelled ps) = ps := by
  rw [← whole, spelled, flatten_pieces]

theorem pieces_of_append {source : List Char} {ps qs : List Piece}
    (split : pieces source = ps ++ qs) : pieces (spelled ps) = ps ∧ pieces (spelled qs) = qs := by
  induction source using text_induction generalizing ps with
  | nil =>
    rw [pieces] at split
    obtain ⟨rfl, rfl⟩ := List.append_eq_nil_iff.mp split.symm
    simp [spelled, pieces]
  | blank c rest blank ih =>
    cases ps with
    | nil => exact ⟨by simp [spelled, pieces], pieces_spelled split⟩
    | cons p ps =>
      rw [pieces_of_isBlank blank, List.cons_append, List.cons.injEq] at split
      obtain ⟨rfl, tail⟩ := split
      obtain ⟨first, second⟩ := ih tail
      refine ⟨?_, second⟩
      rw [spelled_cons, Piece.text, List.singleton_append, pieces_of_isBlank blank, first]
  | lexeme l rest read ih =>
    cases ps with
    | nil => exact ⟨by simp [spelled, pieces], pieces_spelled split⟩
    | cons p ps =>
      rw [pieces_of_reads read, List.cons_append, List.cons.injEq] at split
      obtain ⟨rfl, tail⟩ := split
      obtain ⟨first, second⟩ := ih tail
      refine ⟨?_, second⟩
      have text : rest = spelled ps ++ spelled qs := by
        rw [← spelled_append, ← tail, spelled, flatten_pieces]
      rw [text] at read
      rw [spelled_cons, Piece.text, pieces_of_reads read.of_append, first]

/-- A list of tokens is cut after a token where its pieces are cut after a lexeme. -/
theorem exists_pieces_of_place {n : Nat} {ps : List Piece} {before after : List Token} {t : Token}
    (split : place n ps = before ++ t :: after) :
    ∃ qs rs, ps = qs ++ .lexeme t.toLexeme :: rs ∧
      place n (qs ++ [.lexeme t.toLexeme]) = before ++ [t] ∧
      t.start = n + byteLength (spelled qs) ∧ t.stop = t.start + byteLength t.text ∧
      place t.stop rs = after := by
  induction ps generalizing n before with
  | nil => simp [place] at split
  | cons p ps ih =>
    cases p with
    | blank c =>
      obtain ⟨qs, rs, rfl, first, start, stop, rest⟩ := ih split
      refine ⟨.blank c :: qs, rs, rfl, first, ?_, stop, rest⟩
      rw [start, spelled_cons, Piece.text, byteLength_append, Nat.add_assoc]
      rfl
    | lexeme l =>
      rw [place] at split
      cases before with
      | nil =>
        obtain ⟨rfl, rest⟩ := List.cons.inj split
        exact ⟨[], ps, rfl, rfl, rfl, rfl, rest⟩
      | cons u before =>
        obtain ⟨rfl, tail⟩ := List.cons.inj split
        obtain ⟨qs, rs, rfl, first, start, stop, rest⟩ := ih tail
        refine ⟨.lexeme l :: qs, rs, rfl, congrArg (_ :: ·) first, ?_, stop, rest⟩
        rw [start, spelled_cons, Piece.text, byteLength_append, Nat.add_assoc]

/-- The bytes of a text up to a cut between its characters, and those after it. -/
theorem decode?_take_drop (a b : List Char) :
    decode? ((encode (a ++ b)).take (byteLength a)) = some a ∧
      decode? ((encode (a ++ b)).drop (byteLength a)) = some b := by
  rw [encode_append, ← length_encode a, List.take_left, List.drop_left]
  exact ⟨decode?_encode a, decode?_encode b⟩

/-- The end of a token is a place between two characters, and the text may be cut there: the tokens
of the two parts are the tokens up to this one and the later ones. The text of the token by
itself is this token and no other. -/
theorem tokenize_cut {source : List Char} {before after : List Token} {t : Token}
    (split : tokenize source = before ++ t :: after) :
    (∃ a b, decode? ((encode source).take t.stop) = some a ∧
      decode? ((encode source).drop t.stop) = some b ∧
      tokenize a = before ++ [t] ∧ after = (tokenize b).map (Token.later t.stop)) ∧
    tokenize t.text = [⟨t.toLexeme, 0, t.stop - t.start⟩] := by
  rw [tokenize_eq] at split
  obtain ⟨qs, rs, cut, first, start, stop, rest⟩ := exists_pieces_of_place split
  rw [List.append_cons] at cut
  have whole : source = spelled (qs ++ [.lexeme t.toLexeme]) ++ spelled rs := by
    rw [← spelled_append, ← cut, spelled, flatten_pieces]
  have length : byteLength (spelled (qs ++ [.lexeme t.toLexeme])) = t.stop := by
    rw [spelled_append, byteLength_append, stop, start, Nat.zero_add]
    simp [spelled, Piece.text]
  obtain ⟨left, right⟩ := pieces_of_append cut
  have alone := (pieces_of_append left).2
  have bytes := decode?_take_drop (spelled (qs ++ [.lexeme t.toLexeme])) (spelled rs)
  rw [← whole, length] at bytes
  refine ⟨⟨_, _, bytes.1, bytes.2, ?_, ?_⟩, ?_⟩
  · rw [tokenize_eq, left, first]
  · rw [tokenize_eq, right, ← rest, ← place_add, Nat.add_zero]
  · have text : spelled [.lexeme t.toLexeme] = t.text := by simp [spelled, Piece.text]
    rw [text] at alone
    rw [tokenize_eq, alone, place, place, stop, Nat.add_sub_cancel_left, Nat.zero_add]

/-- The second character of the operator would begin another one, and the quote is never closed. -/
theorem tokenize_cut_operator :
    tokenize "a<=='é".toList = [⟨⟨.word, "a".toList⟩, 0, 1⟩] ++ ⟨⟨.operator, "<=".toList⟩, 1, 3⟩ ::
      [⟨⟨.operator, "=".toList⟩, 3, 4⟩, ⟨⟨.quoted, "'é".toList⟩, 4, 7⟩] ∧
    ∃ a b, decode? ((encode "a<=='é".toList).take 3) = some a ∧
      decode? ((encode "a<=='é".toList).drop 3) = some b ∧
      tokenize a = [⟨⟨.word, "a".toList⟩, 0, 1⟩] ++ [⟨⟨.operator, "<=".toList⟩, 1, 3⟩] ∧
      [⟨⟨.operator, "=".toList⟩, 3, 4⟩, ⟨⟨.quoted, "'é".toList⟩, 4, 7⟩] =
        (tokenize b).map (Token.later 3) := by
  have split : tokenize "a<=='é".toList =
      [⟨⟨.word, "a".toList⟩, 0, 1⟩] ++ ⟨⟨.operator, "<=".toList⟩, 1, 3⟩ ::
        [⟨⟨.operator, "=".toList⟩, 3, 4⟩, ⟨⟨.quoted, "'é".toList⟩, 4, 7⟩] := by
    decide +kernel
  exact ⟨split, (tokenize_cut split).1⟩

end TidySql
