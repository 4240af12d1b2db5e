import TidySql.Proofs.Statements

/-! Blank texts.
A blank is one and the same for the scan, for layout and for trimming. So a text of blanks alone
is what has no tokens and what is formatted to nothing, and all other formatted text begins and ends
with a visible character. -/
namespace TidySql
open Text Lexer

namespace Text

theorem allBlank_iff (cs : List Char) : allBlank cs = true ↔ ∀ c ∈ cs, isBlank c = true :=
  List.all_eq_true

theorem trim_eq_nil_iff (cs : List Char) : trim cs = [] ↔ ∀ c ∈ cs, isBlank c = true := by
  rw [← allBlank_iff]
  constructor
  · intro none
    have visible : withoutBlanks cs = [] := by
      rw [← withoutBlanks_trim, none]
      rfl
    rw [withoutBlanks, List.filter_eq_nil_iff] at visible
    rw [allBlank_iff]
    intro c member
    simpa using visible c member
  · intro blank
    exact trim_append_of_allBlank [] cs blank

theorem head?_trim (cs : List Char) : ∀ c ∈ (trim cs).head?, isBlank c = false := by
  rw [← trimStart_trim cs]
  exact head?_dropWhile isBlank (trim cs)

theorem getLast?_trim (cs : List Char) : ∀ c ∈ (trim cs).getLast?, isBlank c = false := by
  rw [← trimEnd_eq_self_iff]
  exact trimEnd_trimEnd (trimStart cs)

end Text

theorem lexemes_eq_nil_iff (source : List Char) :
    lexemes source = [] ↔ ∀ c ∈ source, isBlank c = true := by
  rw [← allBlank_iff]
  exact ⟨allBlank_of_lexemes, lexemes_of_allBlank⟩

theorem tokenize_eq_nil_iff (source : List Char) :
    tokenize source = [] ↔ ∀ c ∈ source, isBlank c = true := by
  rw [← lexemes_eq_nil_iff, ← map_toLexeme_tokenize, List.map_eq_nil_iff]

/-- Nothing is formatted to nothing but blanks, as the formatted text still holds each token. -/
theorem format_eq_nil_iff (o : Options) (source : List Char) :
    format o source = [] ↔ ∀ c ∈ source, isBlank c = true := by
  rw [← lexemes_eq_nil_iff]
  constructor
  · intro none
    have kept := lexemes_format o source
    rw [none, lexemes_of_allBlank rfl] at kept
    exact List.map_eq_nil_iff.mp kept.symm
  · intro none
    rw [format_eq, none]
    rfl

/-- The test for a blank text leaves out no work that would show, and it agrees with trimming, with
the tokens and with the result. A result that is not empty has no blank at either end. -/
theorem format_of_blanks (o : Options) (source : List Char) :
    format o source = Layout.format o ((tokenize source).map Token.toLexeme) ∧
    (tokenize source = [] ↔ ∀ c ∈ source, isBlank c = true) ∧
    (format o source = [] ↔ ∀ c ∈ source, isBlank c = true) ∧
    (trim source = [] ↔ ∀ c ∈ source, isBlank c = true) ∧
    (∀ c ∈ (format o source).head?, isBlank c = false) ∧
    ∀ c ∈ (format o source).getLast?, isBlank c = false := by
  have laid : format o source = Layout.format o ((tokenize source).map Token.toLexeme) := by
    rw [map_toLexeme_tokenize, format_eq]
  refine ⟨laid, tokenize_eq_nil_iff source, format_eq_nil_iff o source, trim_eq_nil_iff source,
    ?_, ?_⟩
  · rw [laid]
    exact head?_trim _
  · rw [laid]
    exact getLast?_trim _

end TidySql
