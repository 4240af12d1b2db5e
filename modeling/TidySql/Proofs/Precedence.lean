import TidySql.Proofs.ConfigFile
import TidySql.Proofs.Exit

/-! Where the options of a run come from.
At most one configuration file counts, and its options are those of the run but for the ones
that the command line sets. A file at fault ends the command, whatever the command line sets. One
fault is let pass: of patterns that are not all strings, the strings are used. -/
namespace TidySql
open Text

namespace Config
open Toml (Entries)

/-- Where the options of a configuration are written. -/
inductive Origin where
  | path (p : List Char)
  | user (content : List UInt8)
  | nowhere

/-- The paths at which a configuration file is looked for, in the order of the search. -/
def candidates (t : Tree) (operands : List (List Char)) : List (List Char) :=
  (searchList t operands).flatMap fun directory => fileNames.map (Path.join directory)

/-- The one place that counts: an explicit path, else the first candidate that is a file, else the
file of the user. -/
inductive Chosen (t : Tree) (user : Option (List UInt8)) (operands : List (List Char)) :
    Option (List Char) → Origin → Prop where
  | explicit (p : List Char) : Chosen t user operands (some p) (.path p)
  | found {before after : List (List Char)} {p : List Char} :
      candidates t operands = before ++ p :: after → t.isFile p = true →
      (∀ q ∈ before, t.isFile q = false) → Chosen t user operands none (.path p)
  | user {content : List UInt8} : (∀ q ∈ candidates t operands, t.isFile q = false) →
      user = some content → Chosen t user operands none (.user content)
  | nowhere : (∀ q ∈ candidates t operands, t.isFile q = false) → user = none →
      Chosen t user operands none .nowhere

/-- The table that is written there. There is none if nothing or a directory is at the path, or if
the content writes no table. -/
def Origin.Holds (t : Tree) (table : Entries) : Origin → Prop
  | path p => ∃ content, t.content? p = some content ∧ Writes content table
  | user content => Writes content table
  | nowhere => table = []

section
variable {t : Tree} {user : Option (List UInt8)} {operands : List (List Char)}

theorem discover_eq_find? : discover t operands = (candidates t operands).find? t.isFile := by
  rw [discover, candidates, List.find?_flatMap]

theorem discover_eq_none_iff :
    discover t operands = none ↔ ∀ q ∈ candidates t operands, t.isFile q = false := by
  simp [discover_eq_find?]

theorem discover_eq_some_iff {p : List Char} : discover t operands = some p ↔
    ∃ before after, candidates t operands = before ++ p :: after ∧ t.isFile p = true ∧
      ∀ q ∈ before, t.isFile q = false := by
  rw [discover_eq_find?, List.find?_eq_some_iff_append]
  constructor
  · rintro ⟨file, before, after, split, none⟩
    exact ⟨before, after, split, file, by simpa using none⟩
  · rintro ⟨before, after, split, file, none⟩
    exact ⟨file, before, after, split, by simpa using none⟩

/-- The place that counts, computed. -/
def Origin.of (t : Tree) (user : Option (List UInt8)) (operands : List (List Char))
    (explicit : Option (List Char)) : Origin :=
  match explicit <|> discover t operands, user with
  | some p, _ => .path p
  | none, some content => .user content
  | none, none => .nowhere

theorem chosen_iff {explicit : Option (List Char)} {origin : Origin} :
    Chosen t user operands explicit origin ↔ origin = .of t user operands explicit := by
  constructor
  · intro chosen
    cases chosen with
    | explicit p => rfl
    | found split file earlier =>
      have search := discover_eq_some_iff.mpr ⟨_, _, split, file, earlier⟩
      simp [Origin.of, search]
    | user no written => simp [Origin.of, discover_eq_none_iff.mpr no, written]
    | nowhere no absent => simp [Origin.of, discover_eq_none_iff.mpr no, absent]
  · rintro rfl
    cases explicit with
    | some p => exact .explicit p
    | none =>
      cases search : discover t operands with
      | some p =>
        obtain ⟨before, after, split, file, earlier⟩ := discover_eq_some_iff.mp search
        simpa [Origin.of, search] using Chosen.found split file earlier
      | none =>
        have no := discover_eq_none_iff.mp search
        cases user with
        | some content => simpa [Origin.of, search] using Chosen.user no rfl
        | none => simpa [Origin.of, search] using Chosen.nowhere no rfl

theorem load_of_no_file (no : ∀ q ∈ candidates t operands, t.isFile q = false) :
    load t user operands none = user.elim (.ok {}) ofContent := by
  have nothing := discover_eq_none_iff.mpr no
  simp only [load, nothing]
  cases user <;> rfl

theorem load_eq_ok_iff {explicit : Option (List Char)} {origin : Origin}
    (chosen : Chosen t user operands explicit origin) (m : Mode) :
    load t user operands explicit = .ok m ↔
      ∃ table, origin.Holds t table ∧ Usable table ∧ modeOf table = m := by
  have fromPath (p : List Char) (chosen : (explicit <|> discover t operands) = some p) :
      load t user operands explicit = .ok m ↔
        ∃ table, (Origin.path p).Holds t table ∧ Usable table ∧ modeOf table = m := by
    simp only [load, chosen, Origin.Holds, Tree.content?]
    cases t.find? p with
    | none => simp
    | some e =>
      cases e with
      | directory => simp
      | file content => simp [ofContent_eq_ok_iff]
  cases chosen with
  | explicit p => exact fromPath p rfl
  | found split file earlier =>
    exact fromPath _ (discover_eq_some_iff.mpr ⟨_, _, split, file, earlier⟩)
  | user no written =>
    rw [load_of_no_file no, written]
    exact ofContent_eq_ok_iff _ m
  | nowhere no absent =>
    rw [load_of_no_file no, absent]
    have usable := (usable_iff []).mpr (.inl sound_nil)
    simp [Origin.Holds, modeOf_nil, usable]

/-- A configured mode has a width that layout uses as it stands, and no file sets more than the
three options. -/
theorem configured_of_load {explicit : Option (List Char)} {m : Mode}
    (loaded : load t user operands explicit = .ok m) : (1 ≤ m.indentWidth ∧ m.indentWidth ≤ 16) ∧
      m = { indentWidth := m.indentWidth, keywordCase := m.keywordCase, exclude := m.exclude } := by
  obtain ⟨table, -, usable, rfl⟩ := (load_eq_ok_iff (chosen_iff.mpr rfl) m).mp loaded
  refine ⟨?_, rfl⟩
  change 1 ≤ (widthIn? table).getD 4 ∧ (widthIn? table).getD 4 ≤ 16
  cases given : widthIn? table with
  | none => decide
  | some n => exact usable.width n given

end
end Config

namespace CommandLine
open Config

variable {s : Surroundings} {arguments : List (List Char)} {a : Arguments} {e : Effect}

/-- The command runs, and in its mode each of the three options has the value of the arguments,
else the configured one, else its default. -/
def RunsWith (s : Surroundings) (a : Arguments) (e : Effect) (width : Option Nat)
    (case : Option KeywordCase) (patterns : Option (List (List Char))) : Prop :=
  ∃ m, resolve s a = .ok m ∧
    m.indentWidth = a.indentWidth.getD (width.getD 4) ∧
    m.keywordCase = a.keywordCase.getD (case.getD .upper) ∧
    m.exclude = (if a.exclude = [] then patterns.getD [] else a.exclude) ∧
    (a.operands = [['-']] → e = runStdin s m) ∧
    (a.operands ≠ [['-']] → ∃ done, Ends s.tree m a.operands done ∧ e = afterRun s m done)

theorem Leaves.unconfigured (left : Leaves s arguments e)
    (read : ({} : Arguments).read? arguments = some (.run a)) {origin : Origin}
    (chosen : Chosen s.tree s.userConfig a.operands a.config origin)
    (faulty : ¬ ∃ table, origin.Holds s.tree table ∧ Usable table) : Effect.Refused s e := by
  cases resolved : resolve s a with
  | error fault => exact left.misconfigured read resolved
  | ok m =>
    obtain ⟨configured, loaded, -⟩ := resolve_eq_ok_iff.mp resolved
    obtain ⟨table, holds, usable, -⟩ := (load_eq_ok_iff chosen configured).mp loaded
    exact absurd ⟨table, holds, usable⟩ faulty

theorem Leaves.configured (left : Leaves s arguments e)
    (read : ({} : Arguments).read? arguments = some (.run a)) {origin : Origin}
    (chosen : Chosen s.tree s.userConfig a.operands a.config origin) {table : Toml.Entries}
    (holds : origin.Holds s.tree table) (usable : Usable table) :
    RunsWith s a e (widthIn? table) (caseIn? table) (patternsIn? table) := by
  have loaded := (load_eq_ok_iff chosen (modeOf table)).mpr ⟨table, holds, usable, rfl⟩
  have resolved := resolve_eq_ok_iff.mpr ⟨_, loaded, rfl⟩
  refine ⟨_, resolved, rfl, rfl, ?_, left.stdin read resolved, left.files read resolved⟩
  cases patterns : a.exclude <;> simp [Arguments.toMode, patterns, modeOf]

/-- One place at most gives the options of a configuration: the explicit path, else the first
candidate that is a file, else the file of the user. A sound table there gives each of the three
options its value where the arguments do not, and the command runs with these. So does a table
that would be sound without its patterns, of which the strings are used. If the place holds
neither, as the explicit path leads to no file or the content is at fault, the command ends in an
error, whatever the arguments set. Whatever the place, the configured width is one that layout can
use, and no other part of the mode is configured. -/
theorem effect_of_configuration (read : ({} : Arguments).read? arguments = some (.run a))
    (left : Leaves s arguments e) :
    (∃ origin, (Chosen s.tree s.userConfig a.operands a.config origin ∧
        ∀ other, Chosen s.tree s.userConfig a.operands a.config other → other = origin) ∧
      ((¬ ∃ table, origin.Holds s.tree table ∧ Sound table) →
        (¬ ∃ table, origin.Holds s.tree table ∧ Lax table) → Effect.Refused s e) ∧
      (∀ table, origin.Holds s.tree table → Sound table →
        RunsWith s a e (widthIn? table) (caseIn? table) (stringsIn? table)) ∧
      ∀ table, origin.Holds s.tree table → Lax table →
        RunsWith s a e (widthIn? table) (caseIn? table) (patternsIn? table)) ∧
    ∀ t user operands explicit m, load t user operands explicit = .ok m →
      (1 ≤ m.indentWidth ∧ m.indentWidth ≤ 16) ∧ m =
        { indentWidth := m.indentWidth, keywordCase := m.keywordCase, exclude := m.exclude } := by
  refine ⟨?_, fun t user operands explicit m loaded => configured_of_load loaded⟩
  have chosen := chosen_iff.mpr (rfl : Origin.of s.tree s.userConfig a.operands a.config = _)
  refine ⟨_, ⟨chosen, fun other => chosen_iff.mp⟩, ?_, ?_, ?_⟩
  · intro unsound strict
    apply left.unconfigured read chosen
    rintro ⟨table, holds, usable⟩
    rcases (usable_iff table).mp usable with sound | lax
    · exact unsound ⟨table, holds, sound⟩
    · exact strict ⟨table, holds, lax⟩
  · intro table holds sound
    rw [← patternsIn?_of_sound sound]
    exact left.configured read chosen holds ((usable_iff table).mpr (.inl sound))
  · intro table holds lax
    exact left.configured read chosen holds ((usable_iff table).mpr (.inr lax))

/-- A working directory with a configuration file and a file to format, and a file of the user that
would be at fault. -/
def configFile (content : List UInt8) : Surroundings where
  tree := ((Tree.empty ["w".toList]).insert ["w".toList, "a.sql".toList]
    (.file (encode "select 1".toList))).insert ["w".toList, "sqlshow.toml".toList] (.file content)
  userConfig := some (encode "line_length = 88".toList)

theorem chosen_configFile (content : List UInt8) :
    Chosen (configFile content).tree (configFile content).userConfig [".".toList] none
        (.path "./sqlshow.toml".toList) ∧
      (configFile content).tree.content? "./sqlshow.toml".toList = some content := by
  have search : candidates (configFile content).tree [".".toList] =
      [] ++ "./sqlshow.toml".toList ::
        ["./.sqlshow.toml", "sqlshow.toml", ".sqlshow.toml"].map String.toList := by cbv
  have file : (configFile content).tree.isFile "./sqlshow.toml".toList = true := by cbv
  exact ⟨.found search file (by simp), by cbv⟩

theorem holds_configFile_iff (text : List Char) (table : Toml.Entries) :
    (Origin.path "./sqlshow.toml".toList).Holds (configFile (encode text)).tree table ↔
      Toml.parse text = .ok table := by
  obtain ⟨-, content⟩ := chosen_configFile (encode text)
  constructor
  · rintro ⟨content', stands, text', decoded, parsed⟩
    obtain rfl := Option.some.inj (content.symm.trans stands)
    obtain rfl := Option.some.inj ((decode?_encode text).symm.trans decoded)
    exact parsed
  · exact fun parsed => ⟨_, content, text, decode?_encode text, parsed⟩

theorem effect_of_configuration_width :
    ({} : Arguments).read? ["--keyword-case".toList, "lower".toList, ".".toList] =
      some (.run { operands := [".".toList], keywordCase := some .lower }) ∧
    (∃ m, resolve (configFile (encode "indent_width = 2".toList))
        { operands := [".".toList], keywordCase := some .lower } = .ok m ∧
      m.indentWidth = 2 ∧ m.keywordCase = .lower ∧ m.exclude = []) ∧
    ({} : Arguments).read? ["--indent-width".toList, "2".toList, ".".toList] =
      some (.run { operands := [".".toList], indentWidth := some 2 }) ∧
    Effect.Refused (configFile (encode "indent_width = 0".toList))
      (execute (configFile (encode "indent_width = 0".toList))
        ["--indent-width".toList, "2".toList, ".".toList]) := by
  have readCase : ({} : Arguments).read? ["--keyword-case".toList, "lower".toList, ".".toList] =
      some (.run { operands := [".".toList], keywordCase := some .lower }) := rfl
  have readWidth : ({} : Arguments).read? ["--indent-width".toList, "2".toList, ".".toList] =
      some (.run { operands := [".".toList], indentWidth := some 2 }) := rfl
  refine ⟨readCase, ?_, readWidth, ?_⟩
  · obtain ⟨⟨origin, ⟨-, unique⟩, -, sound, -⟩, -⟩ :=
      effect_of_configuration readCase (.execute (configFile (encode "indent_width = 2".toList)) _)
    obtain rfl := unique _ (chosen_configFile (encode "indent_width = 2".toList)).1
    obtain ⟨m, resolved, width, case, exclude, -⟩ := sound [("indent_width".toList, .integer 2)]
      ((holds_configFile_iff _ _).mpr rfl) ((sound_width_iff 2).mpr (by decide))
    refine ⟨m, resolved, ?_, case, ?_⟩
    · rw [width]
      exact congrArg (Option.getD · 4) (widthIn?_width 2)
    · rw [exclude, if_pos rfl, stringsIn?]
      have unset := option?_width 2 "exclude".toList
      rw [if_neg option_names.2.1] at unset
      exact congrArg (fun v => (v.bind Mode.strings?).getD []) unset
  · obtain ⟨⟨origin, ⟨-, unique⟩, refused, -⟩, -⟩ :=
      effect_of_configuration readWidth (.execute (configFile (encode "indent_width = 0".toList)) _)
    obtain rfl := unique _ (chosen_configFile (encode "indent_width = 0".toList)).1
    have narrow (table : Toml.Entries) (holds : (Origin.path "./sqlshow.toml".toList).Holds
        (configFile (encode "indent_width = 0".toList)).tree table) : widthIn? table = some 0 := by
      have written : Toml.parse "indent_width = 0".toList =
          .ok [("indent_width".toList, .integer (0 : Nat))] := rfl
      obtain rfl := Except.ok.inj (written.symm.trans ((holds_configFile_iff _ _).mp holds))
      exact widthIn?_width 0
    apply refused
    · rintro ⟨table, holds, sound⟩
      exact absurd (sound.width 0 (narrow table holds)) (by decide)
    · rintro ⟨table, holds, lax⟩
      exact absurd (lax.width 0 (narrow table holds)) (by decide)

/-- A file with a number among its patterns is at fault, but the command formats what it finds. -/
theorem execute_mixed_patterns :
    ({} : Arguments).read? [".".toList] = some (.run { operands := [".".toList] }) ∧
    Chosen (configFile (encode "exclude = [1, \"vendor*\"]".toList)).tree
      (configFile (encode "exclude = [1, \"vendor*\"]".toList)).userConfig [".".toList] none
      (.path "./sqlshow.toml".toList) ∧
    (¬ ∃ table, (Origin.path "./sqlshow.toml".toList).Holds
      (configFile (encode "exclude = [1, \"vendor*\"]".toList)).tree table ∧ Sound table) ∧
    (execute (configFile (encode "exclude = [1, \"vendor*\"]".toList)) [".".toList]).code = 0 ∧
    (execute (configFile (encode "exclude = [1, \"vendor*\"]".toList)) [".".toList]).tree.content?
      "a.sql".toList = some (encode "SELECT 1\n".toList) := by
  refine ⟨by cbv, (chosen_configFile _).1, ?_, by decide +kernel, by decide +kernel⟩
  rintro ⟨table, holds, sound⟩
  have written : Toml.parse "exclude = [1, \"vendor*\"]".toList =
      .ok [("exclude".toList, .array false [.integer 1, .string "vendor*".toList])] := rfl
  obtain rfl := Except.ok.inj (written.symm.trans ((holds_configFile_iff _ _).mp holds))
  have small : lowercase "exclude".toList = "exclude".toList := by decide +kernel
  have given := option?_singleton "exclude".toList
    (.array false [.integer 1, .string "vendor*".toList]) "exclude".toList
  rw [if_pos small] at given
  obtain ⟨grows, texts, eq⟩ := exists_texts_of_typed (sound.typed _ _ given)
  -- The first item is a number, and all those of a sound table are strings.
  cases texts with
  | nil => simp at eq
  | cons text texts => simp at eq

end CommandLine
end TidySql
