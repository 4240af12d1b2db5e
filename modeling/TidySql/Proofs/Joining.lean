import TidySql.Proofs.Division
import TidySql.Proofs.Tiling

/-! Texts put together at a line feed.
A piece that ends before a character ends there whatever comes after this character. So one line
feed tells whether a text leaves a quote or a comment open, and behind a text that leaves nothing
open every other text is scanned as if it stood alone. -/
namespace TidySql
open Text Lexer

/-- One character is enough to see that a text has ended. -/
theorem pieces_append_of_concat {a : List Char} {e : Char}
    (ends : pieces (a ++ [e]) = pieces a ++ pieces [e]) (r : List Char) :
    pieces (a ++ e :: r) = pieces a ++ pieces (e :: r) := by
  induction a using text_induction with
  | nil => simp [pieces]
  | blank c rest blank ih =>
    rw [List.cons_append, pieces_of_isBlank blank, pieces_of_isBlank blank, List.cons_append,
      List.cons.injEq] at ends
    rw [List.cons_append, pieces_of_isBlank blank, pieces_of_isBlank blank, ih ends.2,
      List.cons_append]
  | lexeme l rest read ih =>
    rw [pieces_of_reads read, List.append_assoc, List.cons_append] at ends
    have first : Reads l (rest ++ [e]) := .of_pieces ends
    have after : Reads l (rest ++ e :: r) := by
      cases rest with
      | nil => exact first.of_same_head r
      | cons d ds => exact read.of_same_head (ds ++ e :: r)
    rw [pieces_of_reads first, List.cons.injEq] at ends
    rw [List.append_assoc, pieces_of_reads after, pieces_of_reads read, ih ends.2, List.cons_append]

/-- A character that changes no token is a blank after the text. A lexeme that held it would end
beyond the text. -/
theorem pieces_concat_of_tokenize {a : List Char} {e : Char}
    (closed : tokenize (a ++ [e]) = tokenize a) :
    pieces (a ++ [e]) = pieces a ++ pieces [e] := by
  have text : spelled (pieces (a ++ [e])) = a ++ [e] := flatten_pieces _
  rcases List.eq_nil_or_concat (pieces (a ++ [e])) with none | ⟨ps, p, split⟩
  · rw [none] at text
    simp [spelled] at text
  · rw [List.concat_eq_append] at split
    rw [split, spelled_append] at text
    cases p with
    | blank c =>
      have single : spelled [.blank c] = [c] := rfl
      rw [single] at text
      obtain ⟨before, last⟩ := List.append_inj' text rfl
      obtain ⟨first, second⟩ := pieces_of_append split
      rw [before] at first
      rw [single, last] at second
      rw [split, first, second]
    | lexeme l =>
      have tokens : tokenize a = place 0 ps ++ place (0 + byteLength (spelled ps)) [.lexeme l] := by
        rw [← closed, tokenize_eq, split, place_append]
        rfl
      have inside := (tokenize_tiles a).2.inside
        ⟨l, byteLength (spelled ps), byteLength (spelled ps) + byteLength l.text⟩
        (by simp [tokens, place])
      have size : byteLength (spelled ps) + byteLength l.text = byteLength a + e.utf8Size := by
        have single : spelled [.lexeme l] = l.text := by simp [spelled, Piece.text]
        rw [← byteLength_append, ← single, text, byteLength_append]
        rfl
      have := e.utf8Size_pos
      rw [length_encode] at inside
      simp only at inside
      omega

/-- If a line feed at the end of a text changes none of its tokens, whatever stands behind the line
feed has its own tokens, with their spans counted on. And only then, as nothing may stand there. -/
theorem tokenize_append_newline (a : List Char) :
    tokenize (a ++ ['\n']) = tokenize a ↔
      ∀ b, tokenize (a ++ ['\n'] ++ b) =
        tokenize a ++ (tokenize b).map (Token.later (byteLength a + 1)) := by
  constructor
  · intro closed b
    have whole := pieces_append_of_concat (pieces_concat_of_tokenize closed) b
    have feed : pieces ('\n' :: b) = .blank '\n' :: pieces b := pieces_of_isBlank (by decide) b
    have text : spelled (pieces a) = a := flatten_pieces a
    calc tokenize (a ++ ['\n'] ++ b)
        = place 0 (pieces a ++ .blank '\n' :: pieces b) := by
          rw [tokenize_eq, ← List.append_cons, whole, feed]
      _ = place 0 (pieces a) ++ place (byteLength a + 1) (pieces b) := by
          rw [place_append, ← spelled, text, Nat.zero_add, place]
          rfl
      _ = tokenize a ++ (tokenize b).map (Token.later (byteLength a + 1)) := by
          rw [tokenize_eq, tokenize_eq, ← place_add, Nat.add_zero]
  · intro glued
    have alone := glued []
    have none : tokenize [] = [] := by rw [tokenize_eq, pieces, place]
    rwa [none, List.append_nil, List.map_nil, List.append_nil] at alone

/-- The second quote of a pair does not close the text, and the line feed goes into it. -/
example : tokenize ("a ''' ".toList ++ ['\n']) ≠ tokenize "a ''' ".toList := by decide +kernel

end TidySql
