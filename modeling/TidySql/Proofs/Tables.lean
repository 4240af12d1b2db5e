import TidySql.Proofs.Faults

/-! Which tables configure a run.
In a table whose keys differ in more than letter case, each key gives one option its value. Such a
table is accepted if and only if its keys are options and its values are ones that they can take,
and then the mode has these values. An array of patterns may hold other things than strings: they
are left out, and nothing is said of them. -/
namespace TidySql.Config
open Text
open Toml (Entries Value)

/-- The table gives a value to an option, whose name may be in any letter case. -/
def Gives (table : Entries) (key : List Char) (v : Value) : Prop :=
  ∃ x ∈ table, lowercase x.1 = key ∧ x.2 = v

/-- The keys are options, and each of them has a value that it can take. -/
structure Accepted (table : Entries) : Prop where
  known : ∀ key v, Gives table key v → key ∈ optionNames
  width : ∀ v, Gives table "indent_width".toList v → ∃ n : Nat, v = .integer n ∧ 1 ≤ n ∧ n ≤ 16
  case : ∀ v, Gives table "keyword_case".toList v →
    v = .string "upper".toList ∨ v = .string "lower".toList
  exclude : ∀ v, Gives table "exclude".toList v → ∃ grows items, v = .array grows items

/-- The mode has the values of the table where it gives any, and else those of the default. -/
structure Configures (table : Entries) (m : Mode) : Prop where
  width : ∀ v, Gives table "indent_width".toList v → v = .integer m.indentWidth
  noWidth : (∀ v, ¬ Gives table "indent_width".toList v) → m.indentWidth = 4
  case : ∀ v, Gives table "keyword_case".toList v → v = .string m.keywordCase.name.toList
  noCase : (∀ v, ¬ Gives table "keyword_case".toList v) → m.keywordCase = .upper
  exclude : ∀ grows items, Gives table "exclude".toList (.array grows items) →
    m.exclude = items.filterMap Value.string?
  noExclude : (∀ v, ¬ Gives table "exclude".toList v) → m.exclude = []
  others : m =
    { indentWidth := m.indentWidth, keywordCase := m.keywordCase, exclude := m.exclude }

/-! ### The options that a table gives -/

theorem foldl_put_of_fresh {table es : Entries}
    (distinct : ((es ++ table.map fun x => (lowercase x.1, x.2)).map Prod.fst).Nodup) :
    table.foldl (fun es (key, v) => put es (lowercase key) v) es =
      es ++ table.map fun x => (lowercase x.1, x.2) := by
  induction table generalizing es with
  | nil => simp
  | cons x table ih =>
    rw [List.map_cons, List.append_cons] at distinct ⊢
    have fresh : lowercase x.1 ∉ es.map Prod.fst := by
      rw [List.map_append, List.map_append, List.append_assoc, List.nodup_append] at distinct
      exact fun member => distinct.2.2 _ member _ (by simp) rfl
    have new : put es (lowercase x.1) x.2 = es ++ [(lowercase x.1, x.2)] := by
      rw [put, (Entries.find?_eq_none_iff es _).mpr fresh]
      rfl
    rw [List.foldl_cons]
    dsimp only
    rw [new, ih distinct]

variable {table : Entries}

/-- Keys that differ in more than letter case stay apart. -/
theorem lowerKeys_perm (distinct : (table.map fun x => lowercase x.1).Nodup) :
    (lowerKeys table).Perm (table.map fun x => (lowercase x.1, x.2)) := by
  have sorted := List.mergeSort_perm table fun a b => Component.textLe a.1 b.1
  have distinct' := (sorted.map fun x => lowercase x.1).nodup_iff.mpr distinct
  rw [lowerKeys, foldl_put_of_fresh (by simpa [Function.comp_def] using distinct')]
  exact sorted.map _

theorem mem_lowerKeys_iff (distinct : (table.map fun x => lowercase x.1).Nodup) (key : List Char)
    (v : Value) : (key, v) ∈ lowerKeys table ↔ Gives table key v := by
  rw [(lowerKeys_perm distinct).mem_iff, List.mem_map]
  simp only [Gives, Prod.mk.injEq]

theorem option?_eq_some_iff (distinct : (table.map fun x => lowercase x.1).Nodup) (key : List Char)
    (v : Value) : option? table key = some v ↔ Gives table key v := by
  rw [← find?_lowerKeys, Entries.find?, Tree.lookup_eq_some_iff (nodup_lowerKeys table),
    mem_lowerKeys_iff distinct]

theorem option?_eq_none_iff (distinct : (table.map fun x => lowercase x.1).Nodup)
    (key : List Char) : option? table key = none ↔ ∀ v, ¬ Gives table key v := by
  simp only [← option?_eq_some_iff distinct, Option.eq_none_iff_forall_ne_some, ne_eq]

/-! ### The values that options take -/

theorem taken_width_iff (v : Value) :
    Taken "indent_width".toList v ↔ ∃ n : Nat, v = .integer n := by
  obtain ⟨first, second, -⟩ := option_names
  simp only [taken_iff, first, second, true_and, false_and, or_false, Option.isSome_iff_exists,
    natural?_eq_some_iff]

theorem taken_case_iff (v : Value) : Taken "keyword_case".toList v ↔
    v = .string "upper".toList ∨ v = .string "lower".toList := by
  obtain ⟨first, -, third⟩ := option_names
  simp only [taken_iff, first.symm, third, true_and, false_and, or_false, false_or,
    Option.isSome_iff_exists, case?_eq_some_iff]
  constructor
  · rintro ⟨k, rfl⟩
    cases k with
    | upper => exact .inl rfl
    | lower => exact .inr rfl
  · rintro (rfl | rfl)
    · exact ⟨.upper, rfl⟩
    · exact ⟨.lower, rfl⟩

theorem taken_exclude_iff (v : Value) :
    Taken "exclude".toList v ↔ ∃ grows items, v = .array grows items := by
  obtain ⟨-, second, third⟩ := option_names
  simp only [taken_iff, second.symm, third.symm, true_and, false_and, false_or,
    Option.isSome_iff_exists, patterns?_eq_some_iff]
  constructor
  · rintro ⟨-, grows, items, eq, -⟩
    exact ⟨grows, items, eq⟩
  · rintro ⟨grows, items, eq⟩
    exact ⟨_, grows, items, eq, rfl⟩

theorem mem_optionNames_of_taken {key : List Char} {v : Value} (taken : Taken key v) :
    key ∈ optionNames := by
  rcases (taken_iff key v).mp taken with ⟨rfl, -⟩ | ⟨rfl, -⟩ | ⟨rfl, -⟩ <;> simp [optionNames]

section
variable (distinct : (table.map fun x => lowercase x.1).Nodup)
include distinct

theorem widthIn?_eq_some_iff (n : Nat) :
    widthIn? table = some n ↔ Gives table "indent_width".toList (.integer n) := by
  rw [widthIn?, Option.bind_eq_some_iff]
  simp only [option?_eq_some_iff distinct, natural?_eq_some_iff, exists_eq_right]

theorem accepted_of_usable (usable : Usable table) : Accepted table := by
  have taken (key : List Char) (v : Value) (gives : Gives table key v) : Taken key v :=
    usable.taken key v ((option?_eq_some_iff distinct key v).mpr gives)
  refine ⟨?_, ?_, ?_, ?_⟩
  · exact fun key v gives => mem_optionNames_of_taken (taken key v gives)
  · intro v gives
    obtain ⟨n, rfl⟩ := (taken_width_iff v).mp (taken _ v gives)
    exact ⟨n, rfl, usable.width n ((widthIn?_eq_some_iff distinct n).mpr gives)⟩
  · exact fun v gives => (taken_case_iff v).mp (taken _ v gives)
  · exact fun v gives => (taken_exclude_iff v).mp (taken _ v gives)

theorem usable_of_accepted (accepted : Accepted table) : Usable table := by
  constructor
  · intro key v found
    have gives := (option?_eq_some_iff distinct key v).mp found
    have known := accepted.known key v gives
    simp only [optionNames, List.map_cons, List.map_nil, List.mem_cons, List.not_mem_nil,
      or_false] at known
    rcases known with rfl | rfl | rfl
    · obtain ⟨n, eq, -⟩ := accepted.width v gives
      exact (taken_width_iff v).mpr ⟨n, eq⟩
    · exact (taken_case_iff v).mpr (accepted.case v gives)
    · exact (taken_exclude_iff v).mpr (accepted.exclude v gives)
  · intro n written
    obtain ⟨n', same, range⟩ := accepted.width _ ((widthIn?_eq_some_iff distinct n).mp written)
    obtain rfl : n = n' := Int.ofNat.inj (Value.integer.inj same)
    exact range

theorem configures_modeOf (accepted : Accepted table) : Configures table (modeOf table) := by
  have given := option?_eq_some_iff distinct
  have missing := option?_eq_none_iff distinct
  refine ⟨?_, ?_, ?_, ?_, ?_, ?_, rfl⟩
  · intro v gives
    obtain ⟨n, rfl, -⟩ := accepted.width v gives
    rw [modeOf, (widthIn?_eq_some_iff distinct n).mpr gives]
    rfl
  · intro none
    rw [modeOf, widthIn?, (missing _).mpr none]
    rfl
  · intro v gives
    rw [modeOf, caseIn?, (given _ v).mpr gives]
    rcases accepted.case v gives with rfl | rfl <;> rfl
  · intro none
    rw [modeOf, caseIn?, (missing _).mpr none]
    rfl
  · intro grows items gives
    rw [modeOf, patternsIn?, (given _ _).mpr gives]
    rfl
  · intro none
    rw [modeOf, patternsIn?, (missing _).mpr none]
    rfl

/-- What a table is refused for is there in the table. -/
theorem exists_of_apply_error {e : ConfigError} (failed : apply {} (lowerKeys table) = .error e) :
    (∃ key v, Gives table key v ∧ Fault key v e) ∨
      ∃ n : Nat, Gives table "indent_width".toList (.integer n) ∧ ¬ (1 ≤ n ∧ n ≤ 16) ∧
        e = .indentOutOfRange n := by
  by_cases sound : ∀ x ∈ lowerKeys table, ¬ Faulty x
  · rw [apply_of_sound (nodup_lowerKeys table) sound, override_lowerKeys, Mode.validate] at failed
    split at failed
    · cases failed
    · rename_i invalid
      cases failed
      cases written : widthIn? table with
      | none => simp [modeOf, written, Mode.isValid, Options.maxWidth] at invalid
      | some n =>
        refine .inr ⟨n, (widthIn?_eq_some_iff distinct n).mp written, ?_, ?_⟩
        · simpa [modeOf, written, Mode.isValid, Options.maxWidth] using invalid
        · rw [modeOf, written]
          rfl
  · obtain ⟨before, x, after, e', split, first, fault⟩ := exists_first_fault sound
    rw [split, apply_of_first_fault first fault] at failed
    cases failed
    refine .inl ⟨x.1, x.2, (mem_lowerKeys_iff distinct x.1 x.2).mp ?_, fault⟩
    rw [split]
    exact List.mem_append_right _ List.mem_cons_self

end

theorem ofContent_of_parse {content : List UInt8} {text : List Char}
    (decoded : decode? content = some text) (parsed : Toml.parse text = .ok table) :
    ofContent content = (apply {} (lowerKeys table)).mapError Error.config := by
  simp only [ofContent, decode, decoded, parsed]
  cases apply {} (lowerKeys table) <;> rfl

/-- A table whose keys differ in more than letter case is accepted if and only if it is made of
options with values that they can take. The mode then has these values, and all the patterns in
their order if the array holds nothing but strings. What a table is refused for is there in it: an
option at fault, or a width that layout cannot use. A file that writes the table gives the same
mode, and else an error of configuration. -/
theorem apply_iff_accepted (distinct : (table.map fun x => lowercase x.1).Nodup) :
    ((∃ m, apply {} (lowerKeys table) = .ok m) ↔ Accepted table) ∧
    (∀ m, apply {} (lowerKeys table) = .ok m → Configures table m ∧
      ∀ grows texts, Gives table "exclude".toList (.array grows (texts.map .string)) →
        m.exclude = texts) ∧
    (∀ e, apply {} (lowerKeys table) = .error e →
      (∃ key v, Gives table key v ∧ Fault key v e) ∨
        ∃ n : Nat, Gives table "indent_width".toList (.integer n) ∧ ¬ (1 ≤ n ∧ n ≤ 16) ∧
          e = .indentOutOfRange n) ∧
    ∀ content text, decode? content = some text → Toml.parse text = .ok table →
      (∀ m, ofContent content = .ok m ↔ apply {} (lowerKeys table) = .ok m) ∧
      ∀ e, ofContent content = .error e →
        ∃ fault, e = .config fault ∧ apply {} (lowerKeys table) = .error fault := by
  have accepts (m : Mode) :
      apply {} (lowerKeys table) = .ok m ↔ Accepted table ∧ modeOf table = m :=
    (apply_lowerKeys_eq_ok_iff table m).trans
      (and_congr_left fun _ => ⟨accepted_of_usable distinct, usable_of_accepted distinct⟩)
  refine ⟨?_, ?_, fun e => exists_of_apply_error distinct, ?_⟩
  · constructor
    · rintro ⟨m, applied⟩
      exact ((accepts m).mp applied).1
    · exact fun accepted => ⟨_, (accepts _).mpr ⟨accepted, rfl⟩⟩
  · intro m applied
    obtain ⟨accepted, rfl⟩ := (accepts m).mp applied
    have configures := configures_modeOf distinct accepted
    refine ⟨configures, fun grows texts gives => ?_⟩
    rw [configures.exclude grows _ gives, filterMap_string]
  · intro content text decoded parsed
    rw [ofContent_of_parse decoded parsed]
    cases apply {} (lowerKeys table) with
    | error fault =>
      refine ⟨fun m => ?_, fun e failed => ⟨fault, (Except.error.inj failed).symm, rfl⟩⟩
      constructor <;> exact fun read => by cases read
    | ok m =>
      refine ⟨fun m' => ?_, fun e failed => by cases failed⟩
      constructor <;> exact fun read => congrArg Except.ok (Except.ok.inj read)

theorem lowerKeys_singleton (key : List Char) (v : Value) :
    lowerKeys [(key, v)] = [(lowercase key, v)] := by
  rw [lowerKeys, List.mergeSort_singleton]
  rfl

/-- A table with a key in capitals. -/
def capitalTable : Entries :=
  [("EXCLUDE".toList, .array false (["vendor*".toList, "*.gen.sql".toList].map .string))]

theorem apply_iff_accepted_capitals : (capitalTable.map fun x => lowercase x.1).Nodup ∧
    Accepted capitalTable ∧ ∃ m, apply {} (lowerKeys capitalTable) = .ok m ∧
      Configures capitalTable m ∧ m.exclude = ["vendor*".toList, "*.gen.sql".toList] := by
  have small : lowercase "EXCLUDE".toList = "exclude".toList := by decide +kernel
  have distinct : (capitalTable.map fun x => lowercase x.1).Nodup := List.pairwise_singleton _ _
  have applied : apply {} (lowerKeys capitalTable) =
      .ok { exclude := ["vendor*".toList, "*.gen.sql".toList] } := by
    rw [capitalTable, lowerKeys_singleton, small]
    rfl
  obtain ⟨accepts, configures, -⟩ := apply_iff_accepted distinct
  obtain ⟨configured, patterns⟩ := configures _ applied
  have listed := patterns false _ ⟨_, List.mem_cons_self, small, rfl⟩
  exact ⟨distinct, accepts.mp ⟨_, applied⟩, _, applied, configured, listed⟩

/-- An array of patterns with something else in it than strings is no fault. -/
theorem ofContent_mixed_exclude : ∃ table,
    Toml.parse "exclude = [1, \"vendor*\"]".toList = .ok table ∧
    (table.map fun x => lowercase x.1).Nodup ∧
    Gives table "exclude".toList (.array false [.integer 1, .string "vendor*".toList]) ∧
    ofContent (encode "exclude = [1, \"vendor*\"]".toList) =
      .ok { exclude := ["vendor*".toList] } := by
  have parsed : Toml.parse "exclude = [1, \"vendor*\"]".toList =
      .ok [("exclude".toList, .array false [.integer 1, .string "vendor*".toList])] := rfl
  have small : lowercase "exclude".toList = "exclude".toList := by decide +kernel
  refine ⟨_, parsed, List.pairwise_singleton _ _, ⟨_, List.mem_cons_self, small, rfl⟩, ?_⟩
  rw [ofContent_of_parse (decode?_encode _) parsed, lowerKeys_singleton, small]
  rfl

end TidySql.Config
