import TidySql.Proofs.ConfigFile

/-! Options at fault, and the order in which options are set.
What is wrong with an option does not depend on the mode that it is set in, so the first option at
fault decides the error. No option comes twice, so the order of the others does not show. -/
namespace TidySql.Config
open Toml (Entries Value)

/-! ### One option -/

def optionNames : List (List Char) :=
  ["indent_width", "keyword_case", "exclude"].map String.toList

/-- The value is of the type that the option has. -/
inductive OfType : List Char → Value → Prop where
  | width (n : Int) : OfType "indent_width".toList (.integer n)
  | case (text : List Char) : OfType "keyword_case".toList (.string text)
  | exclude (grows : Bool) (items : List Value) : OfType "exclude".toList (.array grows items)

/-- What is wrong with an option by itself. -/
inductive Fault : List Char → Value → ConfigError → Prop where
  | unknown {key : List Char} {v : Value} :
      key ∉ optionNames → Fault key v (.unknownOption key)
  | wrongType {key : List Char} {v : Value} :
      key ∈ optionNames → ¬ OfType key v → Fault key v (.wrongType key v.typeName)
  | unknownCase {text : List Char} : text ≠ "upper".toList → text ≠ "lower".toList →
      Fault "keyword_case".toList (.string text) (.unknownCase text)
  | negative {n : Int} : n < 0 → Fault "indent_width".toList (.integer n) (.negativeIndent n)

/-- The entry is at fault, whatever the others are. -/
def Faulty (x : List Char × Value) : Prop := ∃ e, Fault x.1 x.2 e

theorem ofName?_eq_none_iff (text : List Char) : KeywordCase.ofName? (String.ofList text) = none ↔
    text ≠ "upper".toList ∧ text ≠ "lower".toList := by
  simp only [Option.eq_none_iff_forall_ne_some, ne_eq, ofName?_eq_some_iff]
  constructor
  · exact fun other => ⟨other .upper, other .lower⟩
  · rintro ⟨upper, lower⟩ k
    cases k <;> assumption

theorem setOption_of_fault {key : List Char} {v : Value} {e : ConfigError} (fault : Fault key v e)
    (m : Mode) : setOption m key v = .error e := by
  obtain ⟨first, second, third⟩ := option_names
  cases fault with
  | unknown other =>
    simp only [optionNames, List.map_cons, List.map_nil, List.mem_cons, List.not_mem_nil, or_false,
      not_or] at other
    simp only [setOption, if_neg other.1, if_neg other.2.1, if_neg other.2.2]
  | wrongType known other =>
    simp only [optionNames, List.map_cons, List.map_nil, List.mem_cons, List.not_mem_nil,
      or_false] at known
    unfold setOption
    rcases known with rfl | rfl | rfl
    · rw [if_pos rfl]
      cases v with
      | integer n => exact absurd (.width n) other
      | _ => rfl
    · rw [if_neg first.symm, if_pos rfl]
      cases v with
      | string text => exact absurd (.case text) other
      | _ => rfl
    · rw [if_neg second.symm, if_neg third.symm, if_pos rfl]
      cases v with
      | array grows items => exact absurd (.exclude grows items) other
      | _ => rfl
  | unknownCase upper lower =>
    simp only [setOption, if_neg first.symm, if_pos, (ofName?_eq_none_iff _).mpr ⟨upper, lower⟩]
  | negative below =>
    simp only [setOption, if_pos, if_neg (Int.not_le.mpr below)]

/-- An option has a value that it can take, or it is at fault. -/
theorem taken_or_faulty (key : List Char) (v : Value) : Taken key v ∨ Faulty (key, v) := by
  rw [taken_iff]
  by_cases known : key ∈ optionNames
  · by_cases right : OfType key v
    · cases right with
      | width n =>
        by_cases below : n < 0
        · exact .inr ⟨_, .negative below⟩
        · exact .inl (.inl ⟨rfl, by simp [Mode.natural?, Int.not_lt.mp below]⟩)
      | case text =>
        cases named : KeywordCase.ofName? (String.ofList text) with
        | none =>
          obtain ⟨upper, lower⟩ := (ofName?_eq_none_iff text).mp named
          exact .inr ⟨_, .unknownCase upper lower⟩
        | some k => exact .inl (.inr (.inl ⟨rfl, by simp [case?, named]⟩))
      | exclude grows items => exact .inl (.inr (.inr ⟨rfl, rfl⟩))
    · exact .inr ⟨_, .wrongType known right⟩
  · exact .inr ⟨_, .unknown known⟩

theorem setOption_eq_error_iff (m : Mode) (key : List Char) (v : Value) (e : ConfigError) :
    setOption m key v = .error e ↔ Fault key v e := by
  constructor
  · intro failed
    rcases taken_or_faulty key v with taken | ⟨e', fault⟩
    · have set := (setOption_eq_ok_iff m key v _).mpr ⟨taken, rfl⟩
      cases set.symm.trans failed
    · cases (setOption_of_fault fault m).symm.trans failed
      exact fault
  · exact fun fault => setOption_of_fault fault m

theorem taken_iff_not_faulty (key : List Char) (v : Value) : Taken key v ↔ ¬ Faulty (key, v) := by
  constructor
  · rintro taken ⟨e, fault⟩
    have set := (setOption_eq_ok_iff {} key v _).mpr ⟨taken, rfl⟩
    cases set.symm.trans (setOption_of_fault fault {})
  · exact (taken_or_faulty key v).resolve_right

/-! ### All options of a table -/

theorem apply_cons_of_ok {m m' : Mode} {x : List Char × Value}
    (set : setOption m x.1 x.2 = .ok m') (es : Entries) : apply m (x :: es) = apply m' es := by
  rw [apply, apply, List.foldlM_cons]
  simp only [set, bind, Except.bind]

theorem apply_cons_of_error {m : Mode} {x : List Char × Value} {e : ConfigError}
    (refused : setOption m x.1 x.2 = .error e) (es : Entries) : apply m (x :: es) = .error e := by
  rw [apply, List.foldlM_cons]
  simp only [refused, bind, Except.bind]

/-- The first option at fault ends the setting of options, and what follows is not looked at. -/
theorem apply_of_first_fault {before after : Entries} {x : List Char × Value} {e : ConfigError}
    (sound : ∀ y ∈ before, ¬ Faulty y) (fault : Fault x.1 x.2 e) (m : Mode) :
    apply m (before ++ x :: after) = .error e := by
  induction before generalizing m with
  | nil => exact apply_cons_of_error ((setOption_eq_error_iff m x.1 x.2 e).mpr fault) after
  | cons y before ih =>
    obtain ⟨here, later⟩ := List.forall_mem_cons.mp sound
    have taken := (taken_iff_not_faulty y.1 y.2).mpr here
    rw [List.cons_append, apply_cons_of_ok ((setOption_eq_ok_iff m y.1 y.2 _).mpr ⟨taken, rfl⟩)]
    exact ih later _

example (m : Mode) : apply m [("a".toList, .integer 1), ("b".toList, .integer 2)] =
      .error (.unknownOption "a".toList) ∧
    apply m [("b".toList, .integer 2), ("a".toList, .integer 1)] =
      .error (.unknownOption "b".toList) := ⟨rfl, rfl⟩

/-- Without a fault, only the width that comes out is still to be judged. -/
theorem apply_of_sound {es : Entries} (distinct : (es.map Prod.fst).Nodup)
    (sound : ∀ x ∈ es, ¬ Faulty x) (m : Mode) :
    apply m es = (override es m).validate.map fun _ => override es m := by
  have taken : ∀ key v, (key, v) ∈ es → Taken key v :=
    fun key v member => (taken_iff_not_faulty key v).mpr (sound _ member)
  have run := (foldlM_setOption_eq_ok_iff distinct m _).mpr ⟨taken, rfl⟩
  rw [apply, run]
  rfl

theorem find?_perm {es fs : Entries} (distinct : (es.map Prod.fst).Nodup) (perm : es.Perm fs)
    (key : List Char) : es.find? key = fs.find? key := by
  have distinct' : (fs.map Prod.fst).Nodup := (perm.map Prod.fst).nodup_iff.mp distinct
  ext v
  rw [Entries.find?, Entries.find?, Tree.lookup_eq_some_iff distinct,
    Tree.lookup_eq_some_iff distinct', perm.mem_iff]

theorem override_perm {es fs : Entries} (distinct : (es.map Prod.fst).Nodup) (perm : es.Perm fs)
    (m : Mode) : override es m = override fs m := by
  simp only [override, find?_perm distinct perm]

/-- In a table without a fault the order of the options does not matter. -/
theorem apply_perm_of_sound {es fs : Entries} (distinct : (es.map Prod.fst).Nodup)
    (perm : es.Perm fs) (sound : ∀ x ∈ es, ¬ Faulty x) (m : Mode) : apply m es = apply m fs := by
  have distinct' : (fs.map Prod.fst).Nodup := (perm.map Prod.fst).nodup_iff.mp distinct
  rw [apply_of_sound distinct sound, override_perm distinct perm,
    apply_of_sound distinct' fun x member => sound x (perm.mem_iff.mpr member)]

theorem exists_first_fault {es : Entries} (faulty : ¬ ∀ x ∈ es, ¬ Faulty x) :
    ∃ before x after e, es = before ++ x :: after ∧ (∀ y ∈ before, ¬ Faulty y) ∧
      Fault x.1 x.2 e := by
  induction es with
  | nil => exact absurd (fun x member => by cases member) faulty
  | cons y es ih =>
    by_cases here : Faulty y
    · obtain ⟨e, fault⟩ := here
      exact ⟨[], y, es, e, rfl, by simp, fault⟩
    · have later : ¬ ∀ x ∈ es, ¬ Faulty x :=
        fun sound => faulty (List.forall_mem_cons.mpr ⟨here, sound⟩)
      obtain ⟨before, x, after, e, rfl, sound, fault⟩ := ih later
      exact ⟨y :: before, x, after, e, rfl, List.forall_mem_cons.mpr ⟨here, sound⟩, fault⟩

theorem apply_of_single_fault {es : Entries} (distinct : (es.map Prod.fst).Nodup)
    {x : List Char × Value} {e : ConfigError} (member : x ∈ es) (fault : Fault x.1 x.2 e)
    (single : ∀ y ∈ es, Faulty y → y = x) (m : Mode) : apply m es = .error e := by
  obtain ⟨before, after, rfl⟩ := List.append_of_mem member
  refine apply_of_first_fault (fun y early faulty => ?_) fault m
  -- The only faulty option does not come a second time.
  obtain rfl := single y (List.mem_append_left _ early) faulty
  rw [List.map_append, List.nodup_append] at distinct
  exact distinct.2.2 y.1 (List.mem_map_of_mem early) y.1 List.mem_cons_self rfl

/-- Tables with the same options are both refused, or give the same mode, however their options are
ordered. If no more than one option is at fault by itself, the result is the same even where it is
an error, be it of that option or of the width that comes out. -/
theorem apply_perm (m : Mode) {es fs : Entries} (distinct : (es.map Prod.fst).Nodup)
    (perm : es.Perm fs) :
    ((∃ e, apply m es = .error e) ∧ (∃ e, apply m fs = .error e) ∨
      ∃ m', apply m es = .ok m' ∧ apply m fs = .ok m') ∧
    ((∀ x ∈ es, ∀ y ∈ es, Faulty x → Faulty y → x = y) → apply m es = apply m fs) := by
  by_cases sound : ∀ x ∈ es, ¬ Faulty x
  · have same := apply_perm_of_sound distinct perm sound m
    refine ⟨?_, fun _ => same⟩
    rw [← same]
    cases apply m es with
    | error e => exact .inl ⟨⟨e, rfl⟩, ⟨e, rfl⟩⟩
    | ok m' => exact .inr ⟨m', rfl, rfl⟩
  · have sound' : ¬ ∀ x ∈ fs, ¬ Faulty x :=
      fun h => sound fun x member => h x (perm.mem_iff.mp member)
    obtain ⟨before, x, after, e, split, first, fault⟩ := exists_first_fault sound
    obtain ⟨before', x', after', e', split', first', fault'⟩ := exists_first_fault sound'
    -- The errors may differ, as another option may be the first one at fault.
    refine ⟨.inl ⟨⟨e, ?_⟩, ⟨e', ?_⟩⟩, fun single => ?_⟩
    · rw [split, apply_of_first_fault first fault]
    · rw [split', apply_of_first_fault first' fault']
    · have member : x ∈ es := by simp [split]
      have alone : ∀ y ∈ es, Faulty y → y = x :=
        fun y listed faulty => single y listed x member faulty ⟨e, fault⟩
      have distinct' : (fs.map Prod.fst).Nodup := (perm.map Prod.fst).nodup_iff.mp distinct
      rw [apply_of_single_fault distinct member fault alone,
        apply_of_single_fault distinct' (perm.mem_iff.mp member) fault
          fun y listed => alone y (perm.mem_iff.mpr listed)]

/-- A width that no layout can use, which is no fault of the option by itself. -/
def wideOption : List Char × Value := ("indent_width".toList, .integer 20)

def unknownOption : List Char × Value := ("line_length".toList, .integer 88)

/-- The option that does not exist is told of, and not the width, also where the width comes
first. -/
theorem apply_perm_wide : ([wideOption, unknownOption].map Prod.fst).Nodup ∧
    [wideOption, unknownOption].Perm [unknownOption, wideOption] ∧
    (∀ x ∈ [wideOption, unknownOption], ∀ y ∈ [wideOption, unknownOption],
      Faulty x → Faulty y → x = y) ∧
    apply {} [wideOption, unknownOption] = apply {} [unknownOption, wideOption] := by
  have distinct : ([wideOption, unknownOption].map Prod.fst).Nodup := by decide
  have taken : Taken wideOption.1 wideOption.2 := .inl (.width 20)
  have only : ∀ x ∈ [wideOption, unknownOption], Faulty x → x = unknownOption := by
    intro x listed faulty
    rcases List.mem_cons.mp listed with rfl | later
    · exact absurd faulty ((taken_iff_not_faulty _ _).mp taken)
    · exact List.mem_singleton.mp later
  have single : ∀ x ∈ [wideOption, unknownOption], ∀ y ∈ [wideOption, unknownOption],
      Faulty x → Faulty y → x = y :=
    fun x listed y listed' faulty faulty' =>
      (only x listed faulty).trans (only y listed' faulty').symm
  exact ⟨distinct, .swap _ _ _, single, (apply_perm {} distinct (.swap _ _ _)).2 single⟩

end TidySql.Config
