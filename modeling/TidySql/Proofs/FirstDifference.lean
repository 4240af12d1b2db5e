import TidySql.Proofs.Comparison

/-! Where two texts first differ.
The comparison accepts two texts exactly where their lexemes agree one by one. Otherwise it
tells how many lexemes each has, if the numbers differ, and else the first position at which
they do not agree. The message in words gives these numbers back. -/
namespace TidySql
open Text

namespace Equivalence

/-- All that formatting may change in a lexeme: the case of the letters of a word, and the blanks
at the end of any other one. -/
structure Agree (a b : Lexeme) : Prop where
  kind : a.kind = b.kind
  word : a.kind = .word → lower a.text = lower b.text
  other : a.kind ≠ .word → trimEnd a.text = trimEnd b.text

theorem agree_iff (a b : Lexeme) :
    Agree a b ↔ a.kind = b.kind ∧ sameText a.kind a.text b.text = true := by
  constructor
  · intro agree
    refine ⟨agree.kind, ?_⟩
    by_cases word : a.kind = .word
    · simp [sameText, word, equalIgnoringCase_iff, agree.word word]
    · simp [sameText, word, agree.other word]
  · rintro ⟨kind, same⟩
    by_cases word : a.kind = .word
    · refine ⟨kind, fun _ => ?_, fun other => absurd word other⟩
      simpa [sameText, word, equalIgnoringCase_iff] using same
    · refine ⟨kind, fun this => absurd this word, fun _ => ?_⟩
      simpa [sameText, word] using same

instance : DecidableRel Agree := fun a b => decidable_of_iff _ (agree_iff a b).symm

/-- The difference that two lexemes at a position make. -/
def differenceAt (i : Nat) (a b : Lexeme) : Mismatch :=
  if a.kind = b.kind then .text i a b else .kind i a b

theorem firstDifference_cons (i : Nat) (a b : Lexeme) (as bs : List Lexeme) :
    firstDifference i (a :: as) (b :: bs) =
      if Agree a b then firstDifference (i + 1) as bs else some (differenceAt i a b) := by
  rw [firstDifference, if_congr (agree_iff a b) rfl rfl, differenceAt]
  by_cases kind : a.kind = b.kind
  · by_cases same : sameText a.kind a.text b.text = true <;> simp [kind, kind ▸ same]
  · simp [kind]

/-- The lists agree at all positions before `n`, and at `n` they hold `a` and `b`, which do not
agree. -/
structure DifferFirst (as bs : List Lexeme) (n : Nat) (a b : Lexeme) : Prop where
  source : as[n]? = some a
  result : bs[n]? = some b
  before : ∀ j < n, ∃ c d, as[j]? = some c ∧ bs[j]? = some d ∧ Agree c d
  here : ¬ Agree a b

namespace DifferFirst
variable {as bs : List Lexeme} {n : Nat} {a b c d : Lexeme}

theorem zero_iff : DifferFirst (a :: as) (b :: bs) 0 c d ↔ a = c ∧ b = d ∧ ¬ Agree c d := by
  constructor
  · intro first
    exact ⟨Option.some.inj first.source, Option.some.inj first.result, first.here⟩
  · rintro ⟨rfl, rfl, here⟩
    exact ⟨rfl, rfl, fun j below => absurd below (Nat.not_lt_zero j), here⟩

theorem succ_iff :
    DifferFirst (a :: as) (b :: bs) (n + 1) c d ↔ Agree a b ∧ DifferFirst as bs n c d := by
  constructor
  · intro first
    obtain ⟨a', b', source, result, agree⟩ := first.before 0 (Nat.succ_pos n)
    obtain rfl := Option.some.inj source
    obtain rfl := Option.some.inj result
    exact ⟨agree, first.source, first.result,
      fun j below => first.before (j + 1) (Nat.succ_lt_succ below), first.here⟩
  · rintro ⟨agree, rest⟩
    refine ⟨rest.source, rest.result, ?_, rest.here⟩
    intro j below
    cases j with
    | zero => exact ⟨a, b, rfl, rfl, agree⟩
    | succ j => exact rest.before j (Nat.lt_of_succ_lt_succ below)

/-- Where the first lexemes agree, the lists first differ where what follows first differs. -/
theorem exists_of_agree (agree : Agree a b) (P : Nat → Lexeme → Lexeme → Prop) :
    (∃ n c d, DifferFirst (a :: as) (b :: bs) n c d ∧ P n c d) ↔
      ∃ n c d, DifferFirst as bs n c d ∧ P (n + 1) c d := by
  constructor
  · rintro ⟨n, c, d, first, holds⟩
    cases n with
    | zero =>
      obtain ⟨rfl, rfl, here⟩ := zero_iff.mp first
      exact absurd agree here
    | succ n => exact ⟨n, c, d, (succ_iff.mp first).2, holds⟩
  · rintro ⟨n, c, d, first, holds⟩
    exact ⟨n + 1, c, d, succ_iff.mpr ⟨agree, first⟩, holds⟩

theorem exists_of_not_agree (apart : ¬ Agree a b) (P : Nat → Lexeme → Lexeme → Prop) :
    (∃ n c d, DifferFirst (a :: as) (b :: bs) n c d ∧ P n c d) ↔ P 0 a b := by
  constructor
  · rintro ⟨n, c, d, first, holds⟩
    cases n with
    | zero =>
      obtain ⟨rfl, rfl, -⟩ := zero_iff.mp first
      exact holds
    | succ n => exact absurd (succ_iff.mp first).1 apart
  · intro holds
    exact ⟨0, a, b, zero_iff.mpr ⟨rfl, rfl, apart⟩, holds⟩

end DifferFirst

theorem firstDifference_eq_some_iff (i : Nat) (as bs : List Lexeme) (m : Mismatch) :
    firstDifference i as bs = some m ↔
      ∃ n a b, DifferFirst as bs n a b ∧ m = differenceAt (i + n) a b := by
  induction as generalizing i bs with
  | nil =>
    refine iff_of_false (by simp [firstDifference]) ?_
    rintro ⟨n, a, b, first, -⟩
    cases first.source
  | cons a as ih =>
    cases bs with
    | nil =>
      refine iff_of_false (by simp [firstDifference]) ?_
      rintro ⟨n, a, b, first, -⟩
      cases first.result
    | cons b bs =>
      rw [firstDifference_cons]
      by_cases agree : Agree a b
      · rw [if_pos agree, ih, DifferFirst.exists_of_agree agree]
        simp only [Nat.add_assoc, Nat.add_comm 1]
      · rw [if_neg agree, DifferFirst.exists_of_not_agree agree, Option.some_inj]
        exact eq_comm

/-- Lists that look the same to the comparison are as long as each other and agree throughout. -/
theorem map_seen_eq_iff (as bs : List Lexeme) : as.map Lexeme.seen = bs.map Lexeme.seen ↔
    as.length = bs.length ∧
      ∀ (i : Nat) a b, as[i]? = some a → bs[i]? = some b → Agree a b := by
  have agree_iff_seen (a b : Lexeme) : Agree a b ↔ a.seen = b.seen :=
    (agree_iff a b).trans (Lexeme.seen_eq_seen_iff a b).symm
  constructor
  · intro same
    refine ⟨by simpa using congrArg List.length same, ?_⟩
    intro i a b source result
    have here := congrArg (fun ls => ls[i]?) same
    simp only [List.getElem?_map, source, result, Option.map_some, Option.some_inj] at here
    exact (agree_iff_seen a b).mpr here
  · rintro ⟨len, agree⟩
    refine List.ext_getElem (by simpa using len) ?_
    intro i inside inside'
    rw [List.length_map] at inside inside'
    rw [List.getElem_map, List.getElem_map, ← agree_iff_seen]
    exact agree i _ _ (List.getElem?_eq_getElem inside) (List.getElem?_eq_getElem inside')

end Equivalence

/-! ### Messages -/

/-- A number in a message is known by its digits, if no further digit follows them. -/
theorem digits_inj {n n' : Nat} {r r' : List Char} (stop : ∀ c ∈ r.head?, c.isDigit = false)
    (stop' : ∀ c ∈ r'.head?, c.isDigit = false)
    (same : (toString n).toList ++ r = (toString n').toList ++ r') : n = n' ∧ r = r' := by
  have digits (k : Nat) : (toString k).toList = Nat.toDigits 10 k := by
    rw [Nat.toString_eq_repr, Nat.toList_repr]
  have all (k : Nat) : ∀ d ∈ Nat.toDigits 10 k, d.isDigit = true :=
    fun d member => Nat.isDigit_of_mem_toDigits (by decide) (by decide) member
  rw [digits, digits] at same
  have split := Lexer.span_exact Char.isDigit _ r (all n) stop
  have split' := Lexer.span_exact Char.isDigit _ r' (all n') stop'
  rw [← same] at split'
  have value := congrArg (fun ds => Nat.ofDigitChars 10 ds 0) (split.1.symm.trans split'.1)
  simp only [Nat.ofDigitChars_ten_toDigits] at value
  exact ⟨value, split.2.symm.trans split'.2⟩

/-- The position is what stands between the lead of a message and the next colon. -/
theorem position_inj {i j : Nat} {lead r r' : List Char}
    (same : lead ++ ((toString i).toList ++ ':' :: r) = lead ++ ((toString j).toList ++ ':' :: r')) :
    i = j :=
  (digits_inj (by simp) (by simp) (List.append_cancel_left same)).1

namespace Mismatch

/-- The mismatches are of one form and tell the same numbers. -/
inductive SamePlace : Mismatch → Mismatch → Prop where
  | count (n m : Nat) : SamePlace (.count n m) (.count n m)
  | kind (i : Nat) (a b c d : Lexeme) : SamePlace (.kind i a b) (.kind i c d)
  | text (i : Nat) (a b c d : Lexeme) : SamePlace (.text i a b) (.text i c d)

theorem toList_message_count (n m : Nat) : (count n m).message.toList =
    "Token count mismatch: original has ".toList ++
      ((toString n).toList ++ (" tokens, formatted has ".toList ++ (toString m).toList)) := by
  change ("Token count mismatch: original has " ++ toString n ++ " tokens, formatted has " ++
    toString m).toList = _
  rw [String.toList_append, String.toList_append, String.toList_append, List.append_assoc,
    List.append_assoc]

/-- After the position comes a colon. -/
theorem toList_message_kind (i : Nat) (a b : Lexeme) : ∃ rest, (kind i a b).message.toList =
    "Token kind mismatch at position ".toList ++ ((toString i).toList ++ ':' :: rest) := by
  refine ⟨(" original " ++ a.kind.name ++ " '" ++ String.ofList a.text ++ "', formatted " ++
    b.kind.name ++ " '" ++ String.ofList b.text ++ "'").toList, ?_⟩
  change ("Token kind mismatch at position " ++ toString i ++ ": original " ++ a.kind.name ++ " '" ++
    String.ofList a.text ++ "', formatted " ++ b.kind.name ++ " '" ++ String.ofList b.text ++
    "'").toList = _
  have colon : ": original ".toList = ':' :: " original ".toList := by decide +kernel
  simp only [String.toList_append, List.append_assoc, colon, List.cons_append]

theorem toList_message_text (i : Nat) (a b : Lexeme) : ∃ rest, (text i a b).message.toList =
    "Token text mismatch at position ".toList ++ ((toString i).toList ++ ':' :: rest) := by
  refine ⟨(" original '" ++ String.ofList a.text ++ "', formatted '" ++ String.ofList b.text ++
    "'").toList, ?_⟩
  change ("Token text mismatch at position " ++ toString i ++ ": original '" ++
    String.ofList a.text ++ "', formatted '" ++ String.ofList b.text ++ "'").toList = _
  have colon : ": original '".toList = ':' :: " original '".toList := by decide +kernel
  simp only [String.toList_append, List.append_assoc, colon, List.cons_append]

/-- The first letter of the word that tells the three forms apart. -/
def letter : Mismatch → Char
  | count .. => 'c'
  | kind .. => 'k'
  | text .. => 't'

theorem getElem?_message (m : Mismatch) : m.message.toList[6]? = some m.letter := by
  cases m with
  | count n m =>
    rw [toList_message_count, List.getElem?_append_left (by decide +kernel), letter]
    decide +kernel
  | kind i a b =>
    obtain ⟨rest, message⟩ := toList_message_kind i a b
    rw [message, List.getElem?_append_left (by decide +kernel), letter]
    decide +kernel
  | text i a b =>
    obtain ⟨rest, message⟩ := toList_message_text i a b
    rw [message, List.getElem?_append_left (by decide +kernel), letter]
    decide +kernel

theorem count_inj_of_message {n m n' m' : Nat}
    (same : (count n m).message = (count n' m').message) : n = n' ∧ m = m' := by
  have lists := congrArg String.toList same
  have space : " tokens, formatted has ".toList = ' ' :: "tokens, formatted has ".toList := by
    decide +kernel
  rw [toList_message_count, toList_message_count, List.append_cancel_left_eq, space] at lists
  obtain ⟨rfl, rest⟩ := digits_inj (by simp) (by simp) lists
  rw [List.append_cancel_left_eq, ← List.append_nil (toString m).toList,
    ← List.append_nil (toString m').toList] at rest
  exact ⟨rfl, (digits_inj (by simp) (by simp) rest).1⟩

/-- The message tells which of the three it is, and its numbers, whatever the texts hold. -/
theorem samePlace_of_message {m m' : Mismatch} (same : m.message = m'.message) :
    SamePlace m m' := by
  have lists := congrArg String.toList same
  have letters : m.letter = m'.letter := by
    rw [← Option.some_inj, ← getElem?_message, ← getElem?_message, lists]
  cases m with
  | count n k =>
    cases m' with
    | count n' k' =>
      obtain ⟨rfl, rfl⟩ := count_inj_of_message same
      exact .count n k
    | _ => exact absurd letters (by simp [letter])
  | kind i a b =>
    cases m' with
    | kind j c d =>
      obtain ⟨rest, message⟩ := toList_message_kind i a b
      obtain ⟨rest', message'⟩ := toList_message_kind j c d
      rw [message, message'] at lists
      obtain rfl := position_inj lists
      exact .kind i a b c d
    | _ => exact absurd letters (by simp [letter])
  | text i a b =>
    cases m' with
    | text j c d =>
      obtain ⟨rest, message⟩ := toList_message_text i a b
      obtain ⟨rest', message'⟩ := toList_message_text j c d
      rw [message, message'] at lists
      obtain rfl := position_inj lists
      exact .text i a b c d
    | _ => exact absurd letters (by simp [letter])

end Mismatch

namespace Equivalence

theorem mismatch?_of_length {source result : List Char}
    (len : (tokenize source).length ≠ (tokenize result).length) : mismatch? source result =
      some (.count (tokenize source).length (tokenize result).length) := by
  simp [mismatch?, len]

theorem mismatch?_eq_some_iff {source result : List Char}
    (len : (tokenize source).length = (tokenize result).length) (m : Mismatch) :
    mismatch? source result = some m ↔ ∃ i a b,
      DifferFirst ((tokenize source).map Token.toLexeme) ((tokenize result).map Token.toLexeme)
        i a b ∧ m = differenceAt i a b := by
  simpa [mismatch?, len] using firstDifference_eq_some_iff 0
    ((tokenize source).map Token.toLexeme) ((tokenize result).map Token.toLexeme) m

/-- The comparison accepts two texts iff their tokens agree one by one. Different numbers of tokens
come before all else. Otherwise the comparison tells the first position at which the tokens do not
agree, as a difference in kind iff the kinds there differ. The message names the numbers or
the position. -/
theorem mismatch?_first (source result : List Char) :
    (mismatch? source result = none ↔ (tokenize source).length = (tokenize result).length ∧
      ∀ (i : Nat) a b, ((tokenize source).map Token.toLexeme)[i]? = some a →
        ((tokenize result).map Token.toLexeme)[i]? = some b → Agree a b) ∧
    ((tokenize source).length ≠ (tokenize result).length → mismatch? source result =
      some (.count (tokenize source).length (tokenize result).length)) ∧
    ((tokenize source).length = (tokenize result).length → ∀ m,
      mismatch? source result = some m ↔ ∃ i a b,
        DifferFirst ((tokenize source).map Token.toLexeme) ((tokenize result).map Token.toLexeme)
          i a b ∧ m = if a.kind = b.kind then .text i a b else .kind i a b) ∧
    ∀ m m' : Mismatch, m.message = m'.message → m.SamePlace m' := by
  refine ⟨?_, mismatch?_of_length, mismatch?_eq_some_iff, ?_⟩
  · rw [mismatch?_eq_none_iff, map_seen_eq_iff, ← map_toLexeme_tokenize, ← map_toLexeme_tokenize,
      List.length_map, List.length_map]
  · intro m m'
    exact Mismatch.samePlace_of_message

end Equivalence
end TidySql
