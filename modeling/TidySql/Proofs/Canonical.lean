import TidySql.Proofs.Comparison
import TidySql.Proofs.RoundTrip

/-! The formatted text as a canonical form.
Normal forms forget what the comparison overlooks, and they keep the spelling of names,
which the comparison overlooks as well. So two texts have one formatted text where they
compare equal and spell their names alike. -/
namespace TidySql
open Text Lexer

/-- Two lexemes have one normal form exactly if they are seen alike and, should both be
names, spelled alike. -/
theorem Lexer.Reads.normal_eq_normal_iff {a b : Lexeme} (ha : Reads a []) (hb : Reads b [])
    (k : KeywordCase) : a.normal k = b.normal k ↔ a.seen = b.seen ∧
      ∀ v w, a = ⟨.word, v⟩ → b = ⟨.word, w⟩ → Keyword.isReserved (upper v) = false →
        Keyword.isReserved (upper w) = false → v = w := by
  constructor
  · intro same
    refine ⟨?_, ?_⟩
    · rw [← ha.seen_normal k, same, hb.seen_normal k]
    · rintro v w rfl rfl name name'
      rw [Lexeme.normal_name k v name, Lexeme.normal_name k w name'] at same
      exact congrArg Lexeme.text same
  · rintro ⟨alike, names⟩
    obtain ⟨kind, v⟩ := a
    obtain ⟨kind', w⟩ := b
    obtain rfl : kind = kind' := congrArg Lexeme.kind alike
    have text := congrArg Lexeme.text alike
    cases kind with
    | word =>
      have letters : upper v = upper w := text
      by_cases reserved : Keyword.isReserved (upper v) = true
      · rw [Lexeme.normal_reserved k v reserved, Lexeme.normal_reserved k w (letters ▸ reserved),
          letters]
      · have name : Keyword.isReserved (upper v) = false := by simpa using reserved
        rw [names v w rfl rfl name (letters ▸ name)]
    | comment =>
      have ends : trimEnd v = trimEnd w := text
      rw [← ha.trim_comment, ← hb.trim_comment] at ends
      exact congrArg (Lexeme.mk .comment) ends
    | quoted => exact congrArg (Lexeme.mk .quoted) text
    | _ =>
      -- No blank is part of an operator or a mark, so the comparison sees the whole text.
      have ends : trimEnd v = trimEnd w := text
      have left : trimEnd v = v := ha.trimEnd_text (by simp) (by simp)
      have right : trimEnd w = w := hb.trimEnd_text (by simp) (by simp)
      rw [← left, ends, right]

theorem Scans.map_normal_eq_iff {as bs : List Lexeme} (ha : Scans as) (hb : Scans bs)
    (k : KeywordCase) : as.map (Lexeme.normal k) = bs.map (Lexeme.normal k) ↔
      as.map Lexeme.seen = bs.map Lexeme.seen ∧
      ∀ (i : Nat) v w, as[i]? = some ⟨.word, v⟩ → bs[i]? = some ⟨.word, w⟩ →
        Keyword.isReserved (upper v) = false → Keyword.isReserved (upper w) = false → v = w := by
  rw [List.ext_getElem?_iff, List.ext_getElem?_iff, ← forall_and]
  refine forall_congr' fun i => ?_
  rw [List.getElem?_map, List.getElem?_map, List.getElem?_map, List.getElem?_map]
  cases ea : as[i]? with
  | none => cases eb : bs[i]? <;> simp
  | some a =>
    cases eb : bs[i]? with
    | none => simp
    | some b =>
      have read := ha.reads_of_mem a (List.mem_of_getElem? ea)
      have read' := hb.reads_of_mem b (List.mem_of_getElem? eb)
      simpa using read.normal_eq_normal_iff read' k

/-- Two texts are formatted to one text exactly if the comparison finds no difference
between them and each name of the one is spelled as the name at its position in the other. -/
theorem format_eq_iff_alike (o : Options) (a b : List Char) :
    format o a = format o b ↔ Equivalence.mismatch? a b = none ∧
      ∀ (i : Nat) v w, ((tokenize a).map Token.toLexeme)[i]? = some ⟨.word, v⟩ →
        ((tokenize b).map Token.toLexeme)[i]? = some ⟨.word, w⟩ →
        Keyword.isReserved (upper v) = false → Keyword.isReserved (upper w) = false → v = w := by
  rw [format_eq_format_iff, Equivalence.mismatch?_eq_none_iff, map_toLexeme_tokenize,
    map_toLexeme_tokenize]
  exact (scans_lexemes a).map_normal_eq_iff (scans_lexemes b) o.keywordCase

example : Equivalence.mismatch? "a".toList "A".toList = none ∧
    format {} "a".toList ≠ format {} "A".toList := by decide +kernel

end TidySql
