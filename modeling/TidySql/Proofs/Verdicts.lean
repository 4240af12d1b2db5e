import TidySql.Proofs.Settled

/-! What is decided about a file.
A file fails if there is no content for it, stays as it is if the content is its own, and
else is written, unless the mode forbids that. -/
namespace TidySql
open Text

/-- The mode asks what would change, and writes no file. -/
def Mode.onlyAsks (m : Mode) : Bool := m.check || m.diff

namespace Verdict

theorem of_cases (m : Mode) (path : List Char) (content : List UInt8) :
    (m.reformat? content = none ∧
      ∃ message, Verdict.of m path (decode content) = { outcome := .failed message }) ∨
    (m.reformat? content = some content ∧
      Verdict.of m path (decode content) = { outcome := .unchanged }) ∨
    ∃ new, m.reformat? content = some new ∧ new ≠ content ∧
      (Verdict.of m path (decode content)).outcome = .changed ∧
      (Verdict.of m path (decode content)).content? = if m.onlyAsks then none else some new := by
  cases decoded : decode? content with
  | none =>
    left
    refine ⟨(m.reformat?_eq_none_iff content).mpr (.inl decoded),
      "Read error: " ++ ReadError.notUtf8.message, ?_⟩
    rw [decode, decoded]
    rfl
  | some text =>
    have source : decode content = .ok text := by rw [decode, decoded]
    rw [source]
    cases formatted : formatText m text with
    | error e =>
      left
      refine ⟨?_, e.message, ?_⟩
      · simp only [Mode.reformat?, decoded, formatted]
      · simp only [Verdict.of, formatted]
    | ok result =>
      right
      have made := (m.reformat?_eq_some_iff content (encode result)).mpr
        ⟨text, result, decoded, formatted, rfl⟩
      by_cases same : text = result
      · left
        subst same
        rw [encode_of_decode? decoded] at made
        refine ⟨made, ?_⟩
        simp only [Verdict.of, formatted, if_pos]
      · right
        refine ⟨encode result, made, ?_, ?_⟩
        · intro unchanged
          rw [← unchanged, decode?_encode] at decoded
          exact same (Option.some.inj decoded).symm
        · simp only [Verdict.of, formatted, if_neg same, Mode.onlyAsks]
          by_cases diff : m.diff = true
          · simp [diff]
          · by_cases check : m.check = true
            · simp [diff, check]
            · simp [diff, check]

theorem isFailure_iff (m : Mode) (path : List Char) (content : List UInt8) :
    (Verdict.of m path (decode content)).outcome.isFailure = true ↔
      m.reformat? content = none := by
  rcases of_cases m path content with ⟨made, message, eq⟩ | ⟨made, eq⟩ | ⟨new, made, -, eq, -⟩
  · simp [eq, made, Outcome.isFailure]
  · simp [eq, made, Outcome.isFailure]
  · simp [eq, made, Outcome.isFailure]

theorem unchanged_iff (m : Mode) (path : List Char) (content : List UInt8) :
    (Verdict.of m path (decode content)).outcome = .unchanged ↔
      m.reformat? content = some content := by
  rcases of_cases m path content with ⟨made, message, eq⟩ | ⟨made, eq⟩ | ⟨new, made, other, eq, -⟩
  · simp [eq, made]
  · simp [eq, made]
  · simp [eq, made, other]

theorem changed_iff (m : Mode) (path : List Char) (content : List UInt8) :
    (Verdict.of m path (decode content)).outcome = .changed ↔
      ∃ new, m.reformat? content = some new ∧ new ≠ content := by
  rcases of_cases m path content with ⟨made, message, eq⟩ | ⟨made, eq⟩ | ⟨new, made, other, eq, -⟩
  · simp [eq, made]
  · simp [eq, made]
  · simp [eq, made, other]

theorem content?_eq_some_iff (m : Mode) (path : List Char) (content new : List UInt8) :
    (Verdict.of m path (decode content)).content? = some new ↔
      m.onlyAsks = false ∧ m.reformat? content = some new ∧ new ≠ content := by
  rcases of_cases m path content with ⟨made, message, eq⟩ | ⟨made, eq⟩ |
    ⟨made, other, differs, -, eq⟩
  · simp [eq, made]
  · have idle : (Verdict.of m path (decode content)).content? = none := by rw [eq]
    rw [idle, made]
    constructor
    · intro writes
      cases writes
    · rintro ⟨-, same, differs⟩
      exact absurd (Option.some.inj same).symm differs
  · rw [eq, other, Option.some.injEq]
    cases m.onlyAsks with
    | true => simp
    | false =>
      simp only [Bool.false_eq_true, if_false, Option.some.injEq, true_and]
      constructor
      · rintro rfl
        exact ⟨rfl, differs⟩
      · intro both
        exact both.1

theorem content?_getD_of_made {m : Mode} (writing : m.onlyAsks = false) (path : List Char)
    {content new : List UInt8} (made : m.reformat? content = some new) :
    (Verdict.of m path (decode content)).content?.getD content = new := by
  rcases of_cases m path content with ⟨refused, -⟩ | ⟨kept, eq⟩ | ⟨other, made', -, -, eq⟩
  · rw [refused] at made
    cases made
  · rw [eq]
    exact Option.some.inj (kept.symm.trans made)
  · rw [eq, writing]
    exact Option.some.inj (made'.symm.trans made)

theorem content?_getD_of_refused {m : Mode} (path : List Char) {content : List UInt8}
    (refused : m.reformat? content = none) :
    (Verdict.of m path (decode content)).content?.getD content = content := by
  rcases of_cases m path content with ⟨-, message, eq⟩ | ⟨kept, -⟩ | ⟨new, made, -⟩
  · rw [eq]
    rfl
  · rw [refused] at kept
    cases kept
  · rw [refused] at made
    cases made

/-- The outcome is the same whether the mode writes, asks or compares tokens. -/
theorem outcome_congr {m m' : Mode} (options : m'.options = m.options) (path : List Char)
    (source : Except ReadError (List Char)) :
    (Verdict.of m' path source).outcome = (Verdict.of m path source).outcome := by
  cases source with
  | error e => rfl
  | ok source =>
    simp only [Verdict.of, formatText_congr options]
    cases formatText m source with
    | error e => rfl
    | ok result =>
      by_cases same : source = result
      · simp only [if_pos same]
      · simp only [if_neg same, apply_ite Verdict.outcome, ite_self]

end Verdict
end TidySql
