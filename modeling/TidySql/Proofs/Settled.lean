import TidySql.Proofs.Comparison
import TidySql.Proofs.RoundTrip
import TidySql.Run

/-! What a run makes of the content of a file.
The formatted content of what was formatted is that content itself, so there is nothing to
write to a file that was written. -/
namespace TidySql
open Text Lexer

theorem format_withLineEnd (o : Options) (text : List Char) :
    format o (withLineEnd text) = format o text := by
  rw [format_eq_format_iff]
  exact map_withLineEnd (Lexeme.overlooks_normal o.keywordCase) text

theorem formatText_eq_ok_iff (m : Mode) (source result : List Char) :
    formatText m source = .ok result ↔ (1 ≤ m.indentWidth ∧ m.indentWidth ≤ 16) ∧
      result = withLineEnd (format m.options source) := by
  rw [formatText_eq]
  by_cases valid : 1 ≤ m.indentWidth ∧ m.indentWidth ≤ 16
  · rw [if_pos valid, Except.ok.injEq, eq_comm]
    exact ⟨fun same => ⟨valid, same⟩, fun both => both.2⟩
  · rw [if_neg valid]
    constructor
    · intro refused
      cases refused
    · intro both
      exact absurd both.1 valid

/-- The content that a file with the given content should have. -/
def Mode.reformat? (m : Mode) (content : List UInt8) : Option (List UInt8) :=
  match decode? content with
  | none => none
  | some text =>
    match formatText m text with
    | .error _ => none
    | .ok result => some (encode result)

namespace Mode

theorem reformat?_eq_some_iff (m : Mode) (content new : List UInt8) :
    m.reformat? content = some new ↔ ∃ text result, decode? content = some text ∧
      formatText m text = .ok result ∧ new = encode result := by
  unfold reformat?
  cases decoded : decode? content with
  | none => simp
  | some text =>
    cases formatted : formatText m text with
    | error e => simp [formatted]
    | ok result => simp [formatted, eq_comm]

theorem reformat?_eq_none_iff (m : Mode) (content : List UInt8) : m.reformat? content = none ↔
    decode? content = none ∨ ¬ (1 ≤ m.indentWidth ∧ m.indentWidth ≤ 16) := by
  unfold reformat?
  cases decoded : decode? content with
  | none => simp
  | some text =>
    have formatted := formatText_eq m text
    by_cases valid : 1 ≤ m.indentWidth ∧ m.indentWidth ≤ 16
    · rw [if_pos valid] at formatted
      simp [formatted, valid]
    · rw [if_neg valid] at formatted
      simp only [formatted, reduceCtorEq, false_or, valid, not_false_eq_true]

/-- A file keeps its content exactly if its text is the formatted one. -/
theorem reformat?_eq_self_iff (m : Mode) (content : List UInt8) :
    m.reformat? content = some content ↔
      ∃ text, decode? content = some text ∧ formatText m text = .ok text := by
  rw [reformat?_eq_some_iff]
  constructor
  · rintro ⟨text, result, decoded, formatted, same⟩
    rw [same, decode?_encode] at decoded
    obtain rfl := Option.some.inj decoded
    exact ⟨result, same ▸ decode?_encode result, formatted⟩
  · rintro ⟨text, decoded, formatted⟩
    exact ⟨text, text, decoded, formatted, (encode_of_decode? decoded).symm⟩

theorem reformat?_differs_iff (m : Mode) (content : List UInt8) :
    (∃ new, m.reformat? content = some new ∧ new ≠ content) ↔ ∃ text result,
      decode? content = some text ∧ formatText m text = .ok result ∧ result ≠ text := by
  constructor
  · rintro ⟨new, made, differs⟩
    obtain ⟨text, result, decoded, formatted, rfl⟩ := (reformat?_eq_some_iff m content new).mp made
    refine ⟨text, result, decoded, formatted, ?_⟩
    rintro rfl
    exact differs (encode_of_decode? decoded)
  · rintro ⟨text, result, decoded, formatted, differs⟩
    refine ⟨_, (reformat?_eq_some_iff m content _).mpr ⟨text, result, decoded, formatted, rfl⟩, ?_⟩
    intro same
    rw [← same, decode?_encode] at decoded
    exact differs (Option.some.inj decoded)

theorem reformat?_settles {m : Mode} {content new : List UInt8}
    (h : m.reformat? content = some new) : m.reformat? new = some new := by
  obtain ⟨text, result, -, formatted, rfl⟩ := (reformat?_eq_some_iff m content new).mp h
  obtain ⟨valid, eq⟩ := (formatText_eq_ok_iff m text result).mp formatted
  refine (reformat?_eq_self_iff m _).mpr ⟨result, decode?_encode result, ?_⟩
  refine (formatText_eq_ok_iff m result result).mpr ⟨valid, ?_⟩
  rw [eq, format_withLineEnd, format_format]

/-- Where anything is formatted at all, the empty content stays as it is. -/
theorem reformat?_nil {m : Mode} {content new : List UInt8} (h : m.reformat? content = some new) :
    m.reformat? [] = some [] := by
  obtain ⟨text, result, -, formatted, -⟩ := (reformat?_eq_some_iff m content new).mp h
  have valid := ((formatText_eq_ok_iff m text result).mp formatted).1
  refine (reformat?_eq_self_iff m []).mpr ⟨[], rfl, ?_⟩
  exact (formatText_eq_ok_iff m [] []).mpr ⟨valid, rfl⟩

end Mode

theorem formatText_congr {m m' : Mode} (options : m'.options = m.options) (source : List Char) :
    formatText m' source = formatText m source := by
  obtain ⟨width, -⟩ := Options.mk.inj options
  rw [formatText_eq, formatText_eq, options, width]

theorem Mode.reformat?_congr {m m' : Mode} (options : m'.options = m.options) :
    m'.reformat? = m.reformat? := by
  funext content
  simp only [reformat?, formatText_congr options]

end TidySql
