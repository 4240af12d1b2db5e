import TidySql.Config
import TidySql.Mode.Table

/-! What a configuration file says.
The options are set one after the other, each with checks of its own, and the width is judged
at the end. As no option comes twice, the order does not matter: a file is accepted if each of its
options is, and then each of them has its value and the others have their defaults. An option is
accepted if its value is of its type. Patterns are too if some of them are no strings, and this is
the only value of another type that passes. -/
namespace TidySql
open Text

namespace Toml.Entries

theorem find?_replace (es : Entries) (key : List Char) (v : Value) (k : List Char) :
    (es.replace key v).find? k = if k = key then (es.find? k).map fun _ => v else es.find? k := by
  have same : es.replace key v = es.map fun x => (x.1, if x.1 = key then v else x.2) := by
    apply List.map_congr_left
    rintro ⟨a, old⟩ -
    by_cases eq : a = key <;> simp [eq]
  rw [find?, same, Tree.lookup_map_snd fun a old => if a = key then v else old]
  by_cases eq : k = key <;> simp [eq, find?]

theorem keys_replace (es : Entries) (key : List Char) (v : Value) :
    (es.replace key v).map Prod.fst = es.map Prod.fst := by
  rw [replace, List.map_map]
  apply List.map_congr_left
  rintro ⟨a, old⟩ -
  by_cases eq : a = key <;> simp [eq]

theorem find?_eq_none_iff (es : Entries) (key : List Char) :
    es.find? key = none ↔ key ∉ es.map Prod.fst := by
  rw [find?, List.lookup_eq_none_iff]
  constructor
  · intro other member
    obtain ⟨x, inside, rfl⟩ := List.mem_map.mp member
    simpa using other x inside
  · intro missing x inside
    have differs : key ≠ x.1 := by
      rintro rfl
      exact missing (List.mem_map_of_mem inside)
    simpa using differs

end Toml.Entries

namespace Config
open Toml (Entries Value)

/-! ### The options of a table -/

/-- The value that a table gives to an option. Of the keys that are the option's name in some
letter case, the last in the order of the keys counts. -/
def option? (table : Entries) (key : List Char) : Option Value :=
  ((table.mergeSort fun a b => Component.textLe a.1 b.1).reverse.find? fun x =>
    Text.lowercase x.1 == key).map Prod.snd

theorem find?_put (es : Entries) (key : List Char) (v : Value) (k : List Char) :
    (put es key v).find? k = if k = key then some v else es.find? k := by
  rw [put]
  by_cases old : (es.find? key).isSome = true
  · rw [if_pos old, Entries.find?_replace]
    by_cases eq : k = key
    · obtain ⟨w, found⟩ := Option.isSome_iff_exists.mp old
      simp [eq, found]
    · rw [if_neg eq, if_neg eq]
  · have missing : es.find? key = none := by simpa using old
    rw [if_neg old, Entries.find?, List.lookup_append]
    by_cases eq : k = key
    · subst eq
      rw [Entries.find?] at missing
      simp [missing]
    · have differs : (k == key) = false := by simpa using eq
      have single : [(key, v)].lookup k = none := by simp [List.lookup_cons, differs]
      rw [single, if_neg eq, Option.or_none, Entries.find?]

theorem nodup_put {es : Entries} (distinct : (es.map Prod.fst).Nodup) (key : List Char)
    (v : Value) : ((put es key v).map Prod.fst).Nodup := by
  rw [put]
  by_cases old : (es.find? key).isSome = true
  · rw [if_pos old, Entries.keys_replace]
    exact distinct
  · have missing : key ∉ es.map Prod.fst := by
      rw [← Entries.find?_eq_none_iff]
      simpa using old
    rw [if_neg old, List.map_append, List.nodup_append]
    refine ⟨distinct, by simp, ?_⟩
    rintro a member b last rfl
    obtain rfl : a = key := by simpa using last
    exact missing member

theorem find?_foldl_put (xs : Entries) (es : Entries) (key : List Char) :
    (xs.foldl (fun es (k, v) => put es (lowercase k) v) es).find? key =
      ((xs.reverse.find? fun x => lowercase x.1 == key).map Prod.snd).or (es.find? key) := by
  induction xs generalizing es with
  | nil => rfl
  | cons x xs ih =>
    rw [List.foldl_cons, ih, List.reverse_cons, List.find?_append, find?_put]
    cases xs.reverse.find? fun x => lowercase x.1 == key with
    | some later => rfl
    | none =>
      by_cases eq : lowercase x.1 = key
      · simp [eq]
      · have other : key ≠ lowercase x.1 := fun h => eq h.symm
        simp [eq, other]

theorem find?_lowerKeys (table : Entries) (key : List Char) :
    (lowerKeys table).find? key = option? table key := by
  rw [lowerKeys, find?_foldl_put]
  exact Option.or_none

theorem nodup_lowerKeys (table : Entries) : ((lowerKeys table).map Prod.fst).Nodup := by
  have all : ∀ (xs es : Entries), (es.map Prod.fst).Nodup →
      ((xs.foldl (fun es (k, v) => put es (lowercase k) v) es).map Prod.fst).Nodup := by
    intro xs
    induction xs with
    | nil => exact fun _ distinct => distinct
    | cons x xs ih => exact fun es distinct => ih _ (nodup_put distinct _ _)
  exact all _ [] List.nodup_nil

/-! ### The values that options take -/

def case? : Value → Option KeywordCase
  | .string s => KeywordCase.ofName? (String.ofList s)
  | _ => none

/-- The strings of an array. Items that are not strings are passed over. -/
def patterns? : Value → Option (List (List Char))
  | .array _ items => some (items.filterMap Value.string?)
  | _ => none

/-- The key is an option, and the value is of its type. -/
inductive Typed : List Char → Value → Prop where
  | width (n : Nat) : Typed "indent_width".toList (.integer n)
  | case (k : KeywordCase) : Typed "keyword_case".toList (.string k.name.toList)
  | exclude (grows : Bool) (texts : List (List Char)) :
      Typed "exclude".toList (.array grows (texts.map .string))

/-- The key is that of the patterns, and some item of the array is no string. The value is not of
the type of the option, and yet it is not refused. -/
inductive Mixed : List Char → Value → Prop where
  | exclude {grows : Bool} {items : List Value} {x : Value} :
      x ∈ items → x.string? = none → Mixed "exclude".toList (.array grows items)

/-- The option is not refused. -/
def Taken (key : List Char) (v : Value) : Prop := Typed key v ∨ Mixed key v

theorem option_names : "indent_width".toList ≠ "keyword_case".toList ∧
    "indent_width".toList ≠ "exclude".toList ∧
    "keyword_case".toList ≠ "exclude".toList := by decide

theorem ofName?_eq_some_iff (text : List Char) (k : KeywordCase) :
    KeywordCase.ofName? (String.ofList text) = some k ↔ text = k.name.toList := by
  have named (k : KeywordCase) : (k.name == String.ofList text) = true ↔ text = k.name.toList := by
    rw [beq_iff_eq, ← String.toList_inj, String.toList_ofList, eq_comm]
  constructor
  · intro found
    have held := List.find?_some found
    exact (named k).mp held
  · rintro rfl
    cases k <;> decide

theorem natural?_eq_some_iff (v : Value) (n : Nat) :
    Mode.natural? v = some n ↔ v = .integer n := by
  cases v with
  | integer k =>
    by_cases positive : 0 ≤ k
    · simp only [Mode.natural?, if_pos positive, Option.some.injEq, Value.integer.injEq]
      omega
    · simp only [Mode.natural?, if_neg positive, Value.integer.injEq, reduceCtorEq, false_iff]
      omega
  | _ => simp [Mode.natural?]

theorem case?_eq_some_iff (v : Value) (k : KeywordCase) :
    case? v = some k ↔ v = .string k.name.toList := by
  cases v with
  | string text => rw [case?, ofName?_eq_some_iff, Value.string.injEq]
  | _ => simp [case?]

theorem patterns?_eq_some_iff (v : Value) (texts : List (List Char)) : patterns? v = some texts ↔
    ∃ grows items, v = .array grows items ∧ items.filterMap Value.string? = texts := by
  cases v with
  | array grows items =>
    simp only [patterns?, Option.some.injEq, Value.array.injEq]
    constructor
    · exact fun eq => ⟨grows, items, ⟨rfl, rfl⟩, eq⟩
    · rintro ⟨_, _, ⟨rfl, rfl⟩, eq⟩
      exact eq
  | _ => simp [patterns?]

theorem filterMap_string (texts : List (List Char)) :
    (texts.map Value.string).filterMap Value.string? = texts := by
  rw [List.filterMap_map]
  exact List.filterMap_some

theorem mapM_string (texts : List (List Char)) :
    (texts.map Value.string).mapM Value.string? = some texts := by
  induction texts with
  | nil => rfl
  | cons text texts ih => simp [Value.string?, ih]

/-- The items of an array are texts, or one of them is something else. -/
theorem strings_or_other (items : List Value) :
    (∃ texts : List (List Char), items = texts.map .string) ∨ ∃ x ∈ items, x.string? = none := by
  induction items with
  | nil => exact .inl ⟨[], rfl⟩
  | cons x items ih =>
    rcases ih with ⟨texts, rfl⟩ | ⟨y, member, other⟩
    · cases x with
      | string text => exact .inl ⟨text :: texts, rfl⟩
      | _ => exact .inr ⟨_, List.mem_cons_self, rfl⟩
    · exact .inr ⟨y, List.mem_cons_of_mem x member, other⟩

theorem taken_iff (key : List Char) (v : Value) : Taken key v ↔
    key = "indent_width".toList ∧ (Mode.natural? v).isSome = true ∨
      key = "keyword_case".toList ∧ (case? v).isSome = true ∨
      key = "exclude".toList ∧ (patterns? v).isSome = true := by
  simp only [Option.isSome_iff_exists, natural?_eq_some_iff, case?_eq_some_iff,
    patterns?_eq_some_iff]
  constructor
  · rintro ((n | k | ⟨grows, texts⟩) | ⟨member, other⟩)
    · exact .inl ⟨rfl, n, rfl⟩
    · exact .inr (.inl ⟨rfl, k, rfl⟩)
    · exact .inr (.inr ⟨rfl, _, grows, _, rfl, rfl⟩)
    · exact .inr (.inr ⟨rfl, _, _, _, rfl, rfl⟩)
  · rintro (⟨rfl, n, rfl⟩ | ⟨rfl, k, rfl⟩ | ⟨rfl, -, grows, items, rfl, -⟩)
    · exact .inl (.width n)
    · exact .inl (.case k)
    · rcases strings_or_other items with ⟨texts, rfl⟩ | ⟨x, member, other⟩
      · exact .inl (.exclude grows texts)
      · exact .inr (.exclude member other)

theorem exists_texts_of_typed {v : Value} (typed : Typed "exclude".toList v) :
    ∃ grows, ∃ texts : List (List Char), v = .array grows (texts.map .string) := by
  obtain ⟨-, second, third⟩ := option_names
  generalize eq : "exclude".toList = key at typed
  cases typed with
  | width n => exact absurd eq.symm second
  | case k => exact absurd eq.symm third
  | exclude grows texts => exact ⟨grows, texts, rfl⟩

/-! ### The mode that a table describes -/

def widthIn? (table : Entries) : Option Nat :=
  (option? table "indent_width".toList).bind Mode.natural?

def caseIn? (table : Entries) : Option KeywordCase :=
  (option? table "keyword_case".toList).bind case?

/-- The patterns, if all of them are strings. -/
def stringsIn? (table : Entries) : Option (List (List Char)) :=
  (option? table "exclude".toList).bind Mode.strings?

/-- Those of the patterns that are strings. -/
def patternsIn? (table : Entries) : Option (List (List Char)) :=
  (option? table "exclude".toList).bind patterns?

/-- The table gives values to options and to nothing else, each of them of its type, and layout
can use the width. -/
structure Sound (table : Entries) : Prop where
  typed : ∀ key v, option? table key = some v → Typed key v
  width : ∀ n, widthIn? table = some n → 1 ≤ n ∧ n ≤ 16

/-- The table would be sound if it had no patterns, and some of these are no strings. -/
structure Lax (table : Entries) : Prop where
  typed : ∀ key v, option? table key = some v → key ≠ "exclude".toList → Typed key v
  mixed : ∃ v, option? table "exclude".toList = some v ∧ Mixed "exclude".toList v
  width : ∀ n, widthIn? table = some n → 1 ≤ n ∧ n ≤ 16

/-- No option of the table is refused, and neither is the width that comes out. -/
structure Usable (table : Entries) : Prop where
  taken : ∀ key v, option? table key = some v → Taken key v
  width : ∀ n, widthIn? table = some n → 1 ≤ n ∧ n ≤ 16

theorem usable_iff (table : Entries) : Usable table ↔ Sound table ∨ Lax table := by
  constructor
  · rintro ⟨taken, width⟩
    by_cases mixed : ∃ v, option? table "exclude".toList = some v ∧ Mixed "exclude".toList v
    · refine .inr ⟨fun key v given other => ?_, mixed, width⟩
      exact (taken key v given).resolve_right fun wrong => by
        cases wrong
        exact other rfl
    · refine .inl ⟨fun key v given => ?_, width⟩
      exact (taken key v given).resolve_right fun wrong => by
        cases wrong with
        | exclude member other => exact mixed ⟨_, given, .exclude member other⟩
  · rintro (⟨typed, width⟩ | ⟨typed, ⟨v, patterns, mixed⟩, width⟩)
    · exact ⟨fun key v given => .inl (typed key v given), width⟩
    · refine ⟨fun key w given => ?_, width⟩
      by_cases key_eq : key = "exclude".toList
      · subst key_eq
        cases given.symm.trans patterns
        exact .inr mixed
      · exact .inl (typed key w given key_eq)

/-- Where all patterns are strings, none of them is passed over. -/
theorem patternsIn?_of_sound {table : Entries} (sound : Sound table) :
    patternsIn? table = stringsIn? table := by
  rw [patternsIn?, stringsIn?]
  cases given : option? table "exclude".toList with
  | none => rfl
  | some v =>
    obtain ⟨grows, texts, rfl⟩ := exists_texts_of_typed (sound.typed _ v given)
    simp only [Option.bind_some, patterns?, Mode.strings?, filterMap_string, mapM_string]

def modeOf (table : Entries) : Mode where
  indentWidth := (widthIn? table).getD 4
  keywordCase := (caseIn? table).getD .upper
  exclude := (patternsIn? table).getD []

/-- A mode with the values of some options in the place of its own. -/
def override (es : Entries) (m : Mode) : Mode :=
  { m with
    indentWidth := ((es.find? "indent_width".toList).bind Mode.natural?).getD m.indentWidth
    keywordCase := ((es.find? "keyword_case".toList).bind case?).getD m.keywordCase
    exclude := ((es.find? "exclude".toList).bind patterns?).getD m.exclude }

theorem find?_cons (es : Entries) (key : List Char) (v : Value) (k : List Char) :
    Entries.find? k ((key, v) :: es) = if k = key then some v else es.find? k := by
  by_cases eq : k = key
  · simp [Entries.find?, eq]
  · have differs : (k == key) = false := by simpa using eq
    simp [Entries.find?, List.lookup_cons, differs, eq]

theorem override_single (key : List Char) (v : Value) (m : Mode) : override [(key, v)] m =
    { m with
      indentWidth :=
        if "indent_width".toList = key then (Mode.natural? v).getD m.indentWidth else m.indentWidth
      keywordCase :=
        if "keyword_case".toList = key then (case? v).getD m.keywordCase else m.keywordCase
      exclude := if "exclude".toList = key then (patterns? v).getD m.exclude else m.exclude } := by
  have value {α : Type} (read : Value → Option α) (name : List Char) (old : α) :
      ((Entries.find? name [(key, v)]).bind read).getD old =
        if name = key then (read v).getD old else old := by
    rw [find?_cons]
    by_cases eq : name = key
    · rw [if_pos eq, if_pos eq]
      rfl
    · rw [if_neg eq, if_neg eq]
      rfl
  rw [override, value, value, value]

theorem setOption_eq_ok_iff (m : Mode) (key : List Char) (v : Value) (m' : Mode) :
    setOption m key v = .ok m' ↔ Taken key v ∧ override [(key, v)] m = m' := by
  obtain ⟨first, second, third⟩ := option_names
  rw [override_single, taken_iff]
  unfold setOption
  generalize "indent_width".toList = width, "keyword_case".toList = case,
    "exclude".toList = exclude at first second third
  by_cases isWidth : key = width
  · subst isWidth
    cases v with
    | integer n =>
      by_cases positive : 0 ≤ n <;>
        simp [Mode.natural?, first, second, first.symm, second.symm, positive]
    | _ => simp [Mode.natural?, first, second]
  · by_cases isCase : key = case
    · subst isCase
      cases v with
      | string text =>
        cases named : KeywordCase.ofName? (String.ofList text) <;>
          simp [case?, named, first, third, first.symm, third.symm]
      | _ => simp [case?, isWidth, third]
    · by_cases isExclude : key = exclude
      · subst isExclude
        cases v with
        | array grows items => simp [patterns?, second, third, second.symm, third.symm]
        | _ => simp [patterns?, isWidth, isCase]
      · simp [isWidth, isCase, isExclude]

theorem override_cons {es : Entries} {key : List Char} (fresh : key ∉ es.map Prod.fst) (v : Value)
    (m : Mode) : override es (override [(key, v)] m) = override ((key, v) :: es) m := by
  have missing := (Entries.find?_eq_none_iff es key).mpr fresh
  have value {α : Type} (read : Value → Option α) (name : List Char) (old : α) :
      ((es.find? name).bind read).getD (((Entries.find? name [(key, v)]).bind read).getD old) =
        ((Entries.find? name ((key, v) :: es)).bind read).getD old := by
    rw [find?_cons, find?_cons]
    by_cases eq : name = key
    · simp [eq, missing]
    · simp [eq, Entries.find?]
  simp only [override, value]

/-- Options with different names may be set in any order. -/
theorem foldlM_setOption_eq_ok_iff {es : Entries} (distinct : (es.map Prod.fst).Nodup)
    (m m' : Mode) : es.foldlM (fun m (key, v) => setOption m key v) m = .ok m' ↔
      (∀ key v, (key, v) ∈ es → Taken key v) ∧ override es m = m' := by
  induction es generalizing m with
  | nil => simp [override, Entries.find?, pure, Except.pure]
  | cons x es ih =>
    obtain ⟨key, v⟩ := x
    rw [List.map_cons, List.nodup_cons] at distinct
    have fresh : key ∉ es.map Prod.fst := distinct.1
    have step : ((key, v) :: es).foldlM (fun m (key, v) => setOption m key v) m =
        setOption m key v >>= fun next =>
          es.foldlM (fun m (key, v) => setOption m key v) next := rfl
    rw [step, ← override_cons fresh]
    constructor
    · intro run
      cases first : setOption m key v with
      | error e => simp [first, bind, Except.bind] at run
      | ok next =>
        -- The other options are set over a mode that has this one already.
        obtain ⟨taken, rfl⟩ := (setOption_eq_ok_iff m key v next).mp first
        rw [first] at run
        obtain ⟨later, last⟩ := (ih distinct.2 _).mp run
        refine ⟨?_, last⟩
        intro k w member
        rcases List.mem_cons.mp member with here | there
        · cases here
          exact taken
        · exact later k w there
    · rintro ⟨taken, last⟩
      have first := (setOption_eq_ok_iff m key v _).mpr ⟨taken key v List.mem_cons_self, rfl⟩
      rw [first]
      refine (ih distinct.2 _).mpr ⟨?_, last⟩
      exact fun k w member => taken k w (List.mem_cons_of_mem _ member)

theorem override_lowerKeys (table : Entries) : override (lowerKeys table) {} = modeOf table := by
  simp only [override, find?_lowerKeys]
  rfl

theorem apply_lowerKeys_eq_ok_iff (table : Entries) (m : Mode) :
    apply {} (lowerKeys table) = .ok m ↔ Usable table ∧ modeOf table = m := by
  have distinct := nodup_lowerKeys table
  have taken : (∀ key v, (key, v) ∈ lowerKeys table → Taken key v) ↔
      ∀ key v, option? table key = some v → Taken key v := by
    simp only [← find?_lowerKeys, Entries.find?, Tree.lookup_eq_some_iff distinct]
  have valid : (modeOf table).isValid = true ↔ ∀ n, widthIn? table = some n → 1 ≤ n ∧ n ≤ 16 := by
    cases written : widthIn? table <;>
      simp [Mode.isValid, modeOf, Options.maxWidth, written]
  have run (m' : Mode) := foldlM_setOption_eq_ok_iff distinct {} m'
  simp only [override_lowerKeys, taken] at run
  constructor
  · intro applied
    unfold apply at applied
    cases set : (lowerKeys table).foldlM (fun m (key, v) => setOption m key v) ({} : Mode) with
    | error e => simp [set, bind, Except.bind] at applied
    | ok next =>
      obtain ⟨each, rfl⟩ := (run next).mp set
      by_cases fits : (modeOf table).isValid = true
      · simp only [set, Mode.validate, if_pos fits, bind, Except.bind, pure, Except.pure]
          at applied
        exact ⟨⟨each, valid.mp fits⟩, Except.ok.inj applied⟩
      · simp [set, Mode.validate, fits, bind, Except.bind] at applied
  · rintro ⟨usable, rfl⟩
    have set := (run (modeOf table)).mpr ⟨usable.taken, rfl⟩
    simp only [apply, set, Mode.validate, if_pos (valid.mpr usable.width), bind, Except.bind, pure,
      Except.pure]

theorem option?_nil (key : List Char) : option? [] key = none := by simp [option?]

theorem sound_nil : Sound [] := by
  constructor
  · intro key v given
    rw [option?_nil] at given
    cases given
  · intro n given
    rw [widthIn?, option?_nil] at given
    cases given

theorem modeOf_nil : modeOf [] = {} := by
  rw [modeOf, widthIn?, caseIn?, patternsIn?, option?_nil, option?_nil, option?_nil]
  rfl

theorem option?_singleton (name : List Char) (v : Value) (key : List Char) :
    option? [(name, v)] key = if lowercase name = key then some v else none := by
  rw [option?, List.mergeSort_singleton, List.reverse_singleton, List.find?_singleton]
  by_cases eq : lowercase name = key
  · rw [if_pos eq, if_pos (by simpa using eq)]
    rfl
  · rw [if_neg eq, if_neg (by simpa using eq)]
    rfl

/-- A table that sets only the width. -/
theorem option?_width (n : Nat) (key : List Char) :
    option? [("indent_width".toList, .integer n)] key =
      if "indent_width".toList = key then some (.integer n) else none := by
  have small : lowercase "indent_width".toList = "indent_width".toList := by decide +kernel
  rw [option?_singleton, small]

theorem widthIn?_width (n : Nat) :
    widthIn? [("indent_width".toList, .integer n)] = some n := by
  rw [widthIn?, option?_width, if_pos rfl]
  exact (natural?_eq_some_iff _ n).mpr rfl

theorem sound_width_iff (n : Nat) :
    Sound [("indent_width".toList, .integer n)] ↔ 1 ≤ n ∧ n ≤ 16 := by
  constructor
  · exact fun sound => sound.width n (widthIn?_width n)
  · intro fits
    constructor
    · intro key v given
      rw [option?_width, Option.ite_none_right_eq_some] at given
      obtain ⟨rfl, given⟩ := given
      cases given
      exact .width n
    · intro k given
      rw [widthIn?_width] at given
      cases given
      exact fits

/-- The content of a file is text that writes the table. -/
def Writes (content : List UInt8) (table : Entries) : Prop :=
  ∃ text, decode? content = some text ∧ Toml.parse text = .ok table

theorem ofContent_eq_ok_iff (content : List UInt8) (m : Mode) : ofContent content = .ok m ↔
    ∃ table, Writes content table ∧ Usable table ∧ modeOf table = m := by
  unfold ofContent decode
  cases decoded : decode? content with
  | none => simp [Writes, decoded]
  | some text =>
    cases parsed : Toml.parse text with
    | error e => simp [Writes, decoded, parsed]
    | ok table =>
      have applied := apply_lowerKeys_eq_ok_iff table m
      have same : (∃ t, Writes content t ∧ Usable t ∧ modeOf t = m) ↔
          Usable table ∧ modeOf table = m := by
        constructor
        · rintro ⟨t, ⟨text', decoded', parsed'⟩, described⟩
          obtain rfl : text = text' := Option.some.inj (decoded.symm.trans decoded')
          obtain rfl : table = t := Except.ok.inj (parsed.symm.trans parsed')
          exact described
        · exact fun described => ⟨table, ⟨text, decoded, parsed⟩, described⟩
      rw [same, ← applied]
      simp only [parsed]
      cases apply {} (lowerKeys table) <;> simp

end Config
end TidySql
