import Mathlib.Data.List.DropRight
import TidySql.Proofs.Cuts
import TidySql.Text.Ascii

/-! Letter case and trimming.
The case maps move ASCII letters only, so they keep each other's results apart from
case and never turn a character into one of another class. A trimmed text is known
by its last character alone. -/
namespace TidySql.Text

theorem eq_ofNat_of_letter (c : Char) (n : Nat) (low : n ≤ c.toNat) (high : c.toNat < n + 26) :
    ∃ i < 26, c = Char.ofNat (n + i) := by
  refine ⟨c.toNat - n, by omega, ?_⟩
  have same : n + (c.toNat - n) = c.toNat := by omega
  rw [same, Char.ofNat_toNat]

theorem toLower_cases (c : Char) : c.toLower = c ∨ ∃ i < 26, c = Char.ofNat (65 + i) := by
  unfold Char.toLower
  split
  · rename_i h
    have low : 65 ≤ c.toNat := UInt32.le_iff_toNat_le.mp h.1
    have high : c.toNat ≤ 90 := UInt32.le_iff_toNat_le.mp h.2
    exact .inr (eq_ofNat_of_letter c 65 low (by omega))
  · exact .inl rfl

theorem toUpper_cases (c : Char) : c.toUpper = c ∨ ∃ i < 26, c = Char.ofNat (97 + i) := by
  unfold Char.toUpper
  split
  · rename_i h
    have low : 97 ≤ c.toNat := UInt32.le_iff_toNat_le.mp h.1
    have high : c.toNat ≤ 122 := UInt32.le_iff_toNat_le.mp h.2
    exact .inr (eq_ofNat_of_letter c 97 low (by omega))
  · exact .inl rfl

theorem capital_facts : ∀ i < 26, (Char.ofNat (65 + i)).toLower.toUpper = Char.ofNat (65 + i) ∧
    (Char.ofNat (65 + i)).toUpper = Char.ofNat (65 + i) ∧
    Lexer.isWord (Char.ofNat (65 + i)) = true ∧
    Lexer.isWord (Char.ofNat (65 + i)).toLower = true := by decide

theorem small_facts : ∀ i < 26, (Char.ofNat (97 + i)).toUpper.toLower = Char.ofNat (97 + i) ∧
    (Char.ofNat (97 + i)).toLower = Char.ofNat (97 + i) ∧
    (Char.ofNat (97 + i)).toUpper.toUpper = (Char.ofNat (97 + i)).toUpper ∧
    Lexer.isWord (Char.ofNat (97 + i)) = true ∧
    Lexer.isWord (Char.ofNat (97 + i)).toUpper = true := by decide

theorem toLower_toUpper (c : Char) : c.toUpper.toLower = c.toLower := by
  rcases toUpper_cases c with same | ⟨i, small, rfl⟩
  · rw [same]
  · have h := small_facts i small
    rw [h.1, h.2.1]

theorem toUpper_toLower (c : Char) : c.toLower.toUpper = c.toUpper := by
  rcases toLower_cases c with same | ⟨i, capital, rfl⟩
  · rw [same]
  · have h := capital_facts i capital
    rw [h.1, h.2.1]

theorem toUpper_toUpper (c : Char) : c.toUpper.toUpper = c.toUpper := by
  rcases toUpper_cases c with same | ⟨i, small, rfl⟩
  · rw [same, same]
  · exact (small_facts i small).2.2.1

theorem isWord_toUpper (c : Char) : Lexer.isWord c.toUpper = Lexer.isWord c := by
  rcases toUpper_cases c with same | ⟨i, small, rfl⟩
  · rw [same]
  · have h := small_facts i small
    rw [h.2.2.2.1, h.2.2.2.2]

theorem isWord_toLower (c : Char) : Lexer.isWord c.toLower = Lexer.isWord c := by
  rcases toLower_cases c with same | ⟨i, capital, rfl⟩
  · rw [same]
  · have h := capital_facts i capital
    rw [h.2.2.1, h.2.2.2]

theorem lower_upper (cs : List Char) : lower (upper cs) = lower cs := by
  simp only [lower, upper, List.map_map]
  exact List.map_congr_left fun c _ => toLower_toUpper c

theorem upper_lower (cs : List Char) : upper (lower cs) = upper cs := by
  simp only [lower, upper, List.map_map]
  exact List.map_congr_left fun c _ => toUpper_toLower c

theorem lower_lower (cs : List Char) : lower (lower cs) = lower cs := by
  rw [← lower_upper (lower cs), upper_lower, lower_upper]

theorem upper_upper (cs : List Char) : upper (upper cs) = upper cs := by
  simp only [upper, List.map_map]
  exact List.map_congr_left fun c _ => toUpper_toUpper c

theorem equalIgnoringCase_iff_upper (a b : List Char) :
    equalIgnoringCase a b = true ↔ upper a = upper b := by
  rw [equalIgnoringCase_iff]
  constructor
  · intro h
    rw [← upper_lower a, h, upper_lower]
  · intro h
    rw [← lower_upper a, h, lower_upper]

theorem all_isWord_upper (cs : List Char) : (upper cs).all Lexer.isWord = cs.all Lexer.isWord := by
  rw [upper, List.all_map]
  exact congrArg cs.all (funext isWord_toUpper)

theorem all_isWord_lower (cs : List Char) : (lower cs).all Lexer.isWord = cs.all Lexer.isWord := by
  rw [lower, List.all_map]
  exact congrArg cs.all (funext isWord_toLower)

/- Lists that are spelled item by item are trimmed item by item. -/

theorem dropWhile_flatMap {α β : Type} {p : α → Bool} {q : β → Bool} {f : α → List β}
    {xs : List α} (all : ∀ x ∈ xs, p x = true → ∀ y ∈ f x, q y = true)
    (stop : ∀ x ∈ xs, p x = false → ∃ y ∈ (f x).head?, q y = false) :
    (xs.flatMap f).dropWhile q = (xs.dropWhile p).flatMap f := by
  induction xs with
  | nil => rfl
  | cons x xs ih =>
    rw [List.flatMap_cons]
    cases here : p x with
    | true =>
      rw [List.dropWhile_append_of_pos (all x (by simp) here), List.dropWhile_cons_of_pos here]
      exact ih (fun y member => all y (by simp [member])) fun y member => stop y (by simp [member])
    | false =>
      obtain ⟨y, first, solid⟩ := stop x (by simp) here
      obtain ⟨rest, whole⟩ := List.head?_eq_some_iff.mp first
      rw [List.dropWhile_cons_of_neg (by simp [here]), List.flatMap_cons, whole, List.cons_append,
        List.dropWhile_cons_of_neg (by simp [solid])]

theorem dropEndWhile_flatMap {α β : Type} {p : α → Bool} {q : β → Bool} {f : α → List β}
    {xs : List α} (all : ∀ x ∈ xs, p x = true → ∀ y ∈ f x, q y = true)
    (stop : ∀ x ∈ xs, p x = false → ∃ y ∈ (f x).getLast?, q y = false) :
    dropEndWhile q (xs.flatMap f) = (dropEndWhile p xs).flatMap f := by
  rw [dropEndWhile, dropEndWhile, List.reverse_flatMap, dropWhile_flatMap (p := p)]
  · rw [List.reverse_flatMap]
    simp [Function.comp_def]
  · simpa using all
  · simpa using stop

/- A trimmed text. Its last character, if there is one, is not blank. -/

theorem trimEnd_eq_self_iff (cs : List Char) :
    trimEnd cs = cs ↔ ∀ c ∈ cs.getLast?, isBlank c = false := by
  change cs.rdropWhile isBlank = cs ↔ _
  rw [List.rdropWhile_eq_self_iff]
  cases cs <;> simp [List.getLast?_eq_some_getLast]

theorem trimEnd_trimEnd (cs : List Char) : trimEnd (trimEnd cs) = trimEnd cs :=
  List.rdropWhile_idempotent isBlank cs

theorem trimEnd_append_blanks (cs : List Char) :
    ∃ b, allBlank b = true ∧ trimEnd cs ++ b = cs := by
  refine ⟨cs.rtakeWhile isBlank, ?_, List.rdropWhile_append_rtakeWhile⟩
  exact List.all_eq_true.mpr fun c hc => List.mem_rtakeWhile_imp hc

theorem trimEnd_append_of_allBlank (a b : List Char) (blank : allBlank b = true) :
    trimEnd (a ++ b) = trimEnd a := by
  have skipped : ∀ c ∈ b.reverse, isBlank c = true := by
    simpa [allBlank] using blank
  simp only [trimEnd, dropEndWhile, List.reverse_append, List.dropWhile_append_of_pos skipped]

theorem trimEnd_append (a b : List Char) (solid : trimEnd b ≠ []) :
    trimEnd (a ++ b) = a ++ trimEnd b := by
  have kept : b.reverse.dropWhile isBlank ≠ [] := by
    simpa [trimEnd, dropEndWhile] using solid
  simp [trimEnd, dropEndWhile, List.dropWhile_append, kept]

theorem trimEnd_append_solid (a : List Char) {b : List Char} (solid : trimEnd b = b)
    (nonempty : b ≠ []) : trimEnd (a ++ b) = a ++ b := by
  rw [trimEnd_append a b (by rw [solid]; exact nonempty), solid]

theorem trimEnd_cons (c : Char) (cs : List Char) (solid : isBlank c = false) :
    trimEnd (c :: cs) = c :: trimEnd cs := by
  by_cases tail : trimEnd cs = []
  · have single : trimEnd [c] = [c] := (trimEnd_eq_self_iff [c]).mpr (by simp [solid])
    have blank : allBlank cs = true := by
      obtain ⟨b, blank, whole⟩ := trimEnd_append_blanks cs
      rw [tail, List.nil_append] at whole
      exact whole ▸ blank
    rw [tail, ← single]
    exact trimEnd_append_of_allBlank [c] cs blank
  · exact trimEnd_append [c] cs tail

theorem trimStart_of_solid (cs : List Char) (solid : ∀ c ∈ cs.head?, isBlank c = false) :
    trimStart cs = cs := by
  cases cs with
  | nil => rfl
  | cons c cs => simp [trimStart, solid c rfl]

theorem trim_of_solid (cs : List Char) (solid : ∀ c ∈ cs.head?, isBlank c = false) :
    trim cs = trimEnd cs := by
  rw [trim, trimStart_of_solid cs solid]

theorem trimStart_trim (cs : List Char) : trimStart (trim cs) = trim cs := by
  apply trimStart_of_solid
  intro c first
  obtain ⟨b, -, whole⟩ := trimEnd_append_blanks (trimStart cs)
  have same : c ∈ (trimStart cs).head? := by
    rw [← whole, List.head?_append]
    exact Option.mem_def.mpr (by rw [trim, Option.mem_def] at first; rw [first]; rfl)
  exact Lexer.head?_dropWhile isBlank cs c same

theorem trim_trim (cs : List Char) : trim (trim cs) = trim cs := by
  rw [trim, trimStart_trim, trim, trimEnd_trimEnd]

theorem trim_append_of_allBlank (a b : List Char) (blank : allBlank b = true) :
    trim (a ++ b) = trim a := by
  have skipped : b.dropWhile isBlank = [] :=
    List.dropWhile_eq_nil_iff.mpr (List.all_eq_true.mp blank)
  simp only [trim, trimStart, List.dropWhile_append, skipped]
  split
  · rename_i none
    rw [List.isEmpty_iff.mp none]
  · exact trimEnd_append_of_allBlank _ b blank

theorem trimEnd_prefix_self (cs : List Char) : trimEnd cs <+: cs :=
  List.rdropWhile_prefix isBlank cs

/-- What is put after a text takes nothing from it but blanks at its end. -/
theorem trimEnd_prefix_append (a b : List Char) : trimEnd a <+: trimEnd (a ++ b) := by
  by_cases tail : trimEnd b = []
  · obtain ⟨blanks, blank, whole⟩ := trimEnd_append_blanks b
    rw [tail, List.nil_append] at whole
    have same : trimEnd (a ++ b) = trimEnd a := by
      rw [← whole, trimEnd_append_of_allBlank a blanks blank]
    exact ⟨[], by rw [List.append_nil, same]⟩
  · rw [trimEnd_append a b tail]
    exact (trimEnd_prefix_self a).trans (List.prefix_append _ _)

theorem trim_prefix_append (a b : List Char) : trim a <+: trim (a ++ b) := by
  simp only [trim, trimStart, List.dropWhile_append]
  split
  · rename_i none
    rw [List.isEmpty_iff.mp none]
    exact List.nil_prefix
  · exact trimEnd_prefix_append _ b

theorem trim_trimEnd (cs : List Char) : trim (trimEnd cs) = trim cs := by
  obtain ⟨b, blank, whole⟩ := trimEnd_append_blanks cs
  conv_rhs => rw [← whole, trim_append_of_allBlank _ b blank]

/- What a text holds besides its blanks. -/

theorem withoutBlanks_append (a b : List Char) :
    withoutBlanks (a ++ b) = withoutBlanks a ++ withoutBlanks b := List.filter_append a b

theorem withoutBlanks_of_allBlank {cs : List Char} (blank : allBlank cs = true) :
    withoutBlanks cs = [] := by
  rw [withoutBlanks, List.filter_eq_nil_iff]
  intro c member
  simp [List.all_eq_true.mp blank c member]

theorem withoutBlanks_trimEnd (cs : List Char) : withoutBlanks (trimEnd cs) = withoutBlanks cs := by
  obtain ⟨b, blank, whole⟩ := trimEnd_append_blanks cs
  conv_rhs => rw [← whole, withoutBlanks_append, withoutBlanks_of_allBlank blank, List.append_nil]

theorem withoutBlanks_trim (cs : List Char) : withoutBlanks (trim cs) = withoutBlanks cs := by
  have blank : allBlank (cs.takeWhile isBlank) = true := List.all_takeWhile
  have whole : cs.takeWhile isBlank ++ trimStart cs = cs := List.takeWhile_append_dropWhile
  rw [trim, withoutBlanks_trimEnd]
  conv_rhs => rw [← whole, withoutBlanks_append, withoutBlanks_of_allBlank blank, List.nil_append]

end TidySql.Text
