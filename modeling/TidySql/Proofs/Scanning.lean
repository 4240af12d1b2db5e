import TidySql.Proofs.Bytes
import TidySql.Proofs.Normal

/-! The scan over bytes gives the tokens of the scan over characters.
Each step of the loop ends between two characters, with the pending word behind it, and no
span cuts a character. -/
namespace TidySql
open Text Lexer

theorem place_append (n : Nat) (ps qs : List Piece) : place n (ps ++ qs) =
    place n ps ++ place (n + byteLength (ps.map Piece.text).flatten) qs := by
  induction ps generalizing n with
  | nil => rfl
  | cons p ps ih =>
    cases p with
    | blank c =>
      simp only [List.cons_append, place, ih, List.map_cons, List.flatten_cons, Piece.text,
        List.nil_append, byteLength]
      rw [Nat.add_assoc]
    | lexeme l =>
      simp only [List.cons_append, place, ih, List.map_cons, List.flatten_cons, Piece.text,
        byteLength_append]
      rw [Nat.add_assoc]

namespace Scan

theorem slice?_encode (a t r : List Char) :
    slice? (encode (a ++ t ++ r)) (byteLength a) (byteLength a + byteLength t) = some t := by
  have size : byteLength a + byteLength t - byteLength a = byteLength t :=
    Nat.add_sub_cancel_left _ _
  simp only [slice?, size, take_drop_encode]
  rw [if_pos (length_encode t), decode?_encode]

theorem token?_encode (k : Kind) (a t r : List Char) :
    token? (encode (a ++ t ++ r)) k (byteLength a) (byteLength a + byteLength t) =
      some ⟨⟨k, t⟩, byteLength a, byteLength a + byteLength t⟩ := by
  rw [token?, slice?_encode, Option.map_some]

/-- Where the pending word `w` starts, if the scan stands after it. -/
def pending (start : Nat) (w : List Char) : Option Nat := if w = [] then none else some start

def wordPieces (w : List Char) : List Piece := if w = [] then [] else [.lexeme ⟨.word, w⟩]

theorem flush?_encode (a w r : List Char) :
    flush? (encode (a ++ w ++ r)) (pending (byteLength a) w) (byteLength (a ++ w)) =
      some (place (byteLength a) (wordPieces w)) := by
  by_cases none : w = []
  · simp [pending, wordPieces, none, flush?, place]
  · rw [pending, if_neg none, wordPieces, if_neg none, flush?, byteLength_append, token?_encode]
    rfl

theorem pieces_word {w r : List Char} (body : w.all isWord = true)
    (stop : ∀ d ∈ r.head?, isWord d = false) : pieces (w ++ r) = wordPieces w ++ pieces r := by
  by_cases none : w = []
  · simp [wordPieces, none]
  · rw [wordPieces, if_neg none]
    exact pieces_of_reads (.of_text none body stop)

theorem flatten_wordPieces (w : List Char) : ((wordPieces w).map Piece.text).flatten = w := by
  by_cases none : w = []
  · simp [wordPieces, none]
  · simp [wordPieces, none, Piece.text]

theorem place_word (n : Nat) {w r : List Char} (body : w.all isWord = true)
    (stop : ∀ d ∈ r.head?, isWord d = false) : place n (pieces (w ++ r)) =
      place n (wordPieces w) ++ place (n + byteLength w) (pieces r) := by
  rw [pieces_word body stop, place_append, flatten_wordPieces]

theorem pending_concat (start : Nat) (w : List Char) (c : Char) :
    pending start (w ++ [c]) = some start := if_neg (by simp)

theorem pending_getD (a w : List Char) :
    (pending (byteLength a) w).getD (byteLength (a ++ w)) = byteLength a := by
  by_cases none : w = []
  · simp [pending, none]
  · rw [pending, if_neg none, Option.getD_some]

/- One step of the loop. -/

section
variable (source : List UInt8) (position : Nat) (word : Option Nat) {c : Char} (cs : List Char)

theorem tokensFrom?_word (body : isWord c = true) :
    tokensFrom? source position word (encode (c :: cs)) =
      tokensFrom? source (position + c.utf8Size) (some (word.getD position)) (encode cs) := by
  have solid : isBlank c = false := ((isWord_iff c).mp body).1
  obtain ⟨b, bs, bytes, first, length⟩ := utf8EncodeChar_cons c
  have rest : (bs ++ encode cs).drop (c.utf8Size - 1) = encode cs := by
    rw [← length, Nat.add_sub_cancel, List.drop_left]
  rw [encode_cons, bytes, List.cons_append, tokensFrom?, marked?_plain (.inr body) bytes]
  simp only [blankLength?_encode bytes, solid, first, rest]
  rfl

theorem tokensFrom?_blank (blank : isBlank c = true) :
    tokensFrom? source position word (encode (c :: cs)) = do
      let before ← flush? source word position
      let after ← tokensFrom? source (position + byteLength [c]) none (encode cs)
      return before ++ after := by
  obtain ⟨b, bs, bytes, first, length⟩ := utf8EncodeChar_cons c
  have rest : (bs ++ encode cs).drop bs.length = encode cs := List.drop_left
  rw [encode_cons, bytes, List.cons_append, tokensFrom?, marked?_plain (.inl blank) bytes]
  simp only [blankLength?_encode bytes, blank, ← length, if_true, Option.bind_eq_bind,
    Option.bind_some, rest, byteLength, Nat.add_zero]

theorem tokensFrom?_mark (solid : isBlank c = false) (marked : isWord c = false) :
    tokensFrom? source position word (encode (c :: cs)) = do
      let stop := position + byteLength (c :: (cut c cs).2.1)
      let before ← flush? source word position
      let token ← token? source (cut c cs).1 position stop
      let after ← tokensFrom? source stop none (encode (cut c cs).2.2)
      return before ++ token :: after := by
  have ascii := ascii_of_marked solid marked
  have rest : (encode cs).drop (byteLength (cut c cs).2.1) = encode (cut c cs).2.2 := by
    conv => enter [1, 2]; rw [← cut_append c cs]
    rw [encode_append, ← length_encode, List.drop_left]
  rw [encode_cons_ascii ascii, tokensFrom?, marked?_encode solid marked]
  simp only [rest, byteLength_cons_ascii ascii]

end

/-- The scan that stands before `cs`, with the word `w` pending after `a`, ends with the
tokens of the word and of what is left. -/
def Resumes (a w cs : List Char) : Prop :=
  tokensFrom? (encode (a ++ w ++ cs)) (byteLength (a ++ w)) (pending (byteLength a) w)
    (encode cs) = some (place (byteLength a) (pieces (w ++ cs)))

theorem Resumes.nil (a : List Char) {w : List Char} (body : w.all isWord = true) :
    Resumes a w [] := by
  have placed := place_word (byteLength a) body (r := []) (by simp)
  rw [Resumes, encode_nil, tokensFrom?, flush?_encode, placed, pieces, place, List.append_nil]

theorem Resumes.word {a w cs : List Char} {c : Char} (inside : isWord c = true)
    (rest : Resumes a (w ++ [c]) cs) : Resumes a w (c :: cs) := by
  rw [Resumes, ← List.append_assoc, pending_concat, byteLength_append (a ++ w)] at rest
  rw [Resumes, tokensFrom?_word _ _ _ _ inside, pending_getD, List.append_cons (a ++ w),
    List.append_cons w]
  exact rest

/-- After a blank or a mark no word is pending. -/
theorem Resumes.restart {a t r : List Char} (rest : Resumes (a ++ t) [] r) :
    tokensFrom? (encode (a ++ (t ++ r))) (byteLength a + byteLength t) none (encode r) =
      some (place (byteLength a + byteLength t) (pieces r)) := by
  rw [Resumes, List.append_nil, List.append_assoc, byteLength_append] at rest
  exact rest

theorem Resumes.blank {a w cs : List Char} {c : Char} (body : w.all isWord = true)
    (white : isBlank c = true) (rest : Resumes (a ++ w ++ [c]) [] cs) : Resumes a w (c :: cs) := by
  have stop : ∀ d ∈ (c :: cs).head?, isWord d = false := by
    rintro d ⟨rfl⟩
    simp [isWord, white]
  have after := rest.restart
  rw [List.singleton_append] at after
  rw [Resumes, tokensFrom?_blank _ _ _ _ white, flush?_encode, after,
    place_word (byteLength a) body stop, ← byteLength_append a w, pieces_cons, next, if_pos white]
  rfl

theorem Resumes.mark {a w cs : List Char} {c : Char} (body : w.all isWord = true)
    (solid : isBlank c = false) (marked : isWord c = false)
    (rest : Resumes (a ++ w ++ c :: (cut c cs).2.1) [] (cut c cs).2.2) :
    Resumes a w (c :: cs) := by
  have stop : ∀ d ∈ (c :: cs).head?, isWord d = false := by
    rintro d ⟨rfl⟩
    exact marked
  have whole : c :: cs = (c :: (cut c cs).2.1) ++ (cut c cs).2.2 :=
    congrArg (c :: ·) (cut_append c cs).symm
  have after := rest.restart
  have token := token?_encode (cut c cs).1 (a ++ w) (c :: (cut c cs).2.1) (cut c cs).2.2
  rw [List.append_assoc (a ++ w), ← whole] at token
  rw [← whole] at after
  rw [Resumes, tokensFrom?_mark _ _ _ _ solid marked, flush?_encode,
    place_word (byteLength a) body stop, ← byteLength_append a w, pieces_cons, next,
    if_neg (by simp [solid])]
  simp only [token, after]
  rfl

theorem resumes (a w cs : List Char) (body : w.all isWord = true) : Resumes a w cs := by
  induction size : cs.length using Nat.strong_induction_on generalizing a w cs with
  | h n ih =>
    cases cs with
    | nil => exact .nil a body
    | cons c cs =>
      rw [List.length_cons] at size
      by_cases inside : isWord c = true
      · exact .word inside (ih cs.length (by omega) a (w ++ [c]) cs (by simp [body, inside]) rfl)
      · by_cases white : isBlank c = true
        · exact .blank body white (ih cs.length (by omega) _ [] cs rfl rfl)
        · have shorter := congrArg List.length (cut_append c cs)
          rw [List.length_append] at shorter
          exact .mark body (by simpa using white) (by simpa using inside)
            (ih _ (by omega) _ [] (cut c cs).2.2 rfl rfl)

theorem tokens?_encode (source : List Char) :
    tokens? (encode source) = some (place 0 (pieces source)) :=
  resumes [] [] source rfl

end Scan

theorem tokenize_eq (source : List Char) : tokenize source = place 0 (pieces source) := by
  rw [tokenize, Scan.tokens?_encode, Option.getD_some]

theorem map_toLexeme_tokenize (source : List Char) :
    (tokenize source).map Token.toLexeme = lexemes source := by
  rw [tokenize_eq, map_toLexeme_place, lexemes]

end TidySql
