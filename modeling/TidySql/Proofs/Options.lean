import TidySql.CommandLine.Help
import TidySql.CommandLine.Options

/-! How a command line is read by its parts.
A list of options leaves its arguments behind and then the rest is read, and operands are
added in order. So options come before operands without a word about either. The help tells of the
options that are read and of no others. -/
namespace TidySql.Arguments

theorem read?_options {a b : Arguments} {opts : List (List Char)} (h : a.options? opts = some b)
    (rest : List (List Char)) : a.read? (opts ++ rest) = b.read? rest := by
  fun_induction options? a opts with
  | case1 a =>
    cases h
    rfl
  | case2 => cases h
  | case3 a text opts option a' meaning ih =>
    rw [not_or] at option
    rw [List.cons_append, read?, if_neg option.2, meaning]
    exact ih h
  | case4 => cases h
  | case5 => cases h
  | case6 => cases h
  | case7 a text option a' s meaning value opts plain a'' set ih =>
    rw [not_or] at option
    rw [List.cons_append, List.cons_append, read?, if_neg option.2, meaning]
    simp only [if_neg plain, set]
    exact ih h
  | case8 => cases h

/-! ### Options leave the operands alone -/

theorem operands_of_turnOn? {a b : Arguments} {s : Switch} (h : a.turnOn? s = some b) :
    b.operands = a.operands := by
  unfold turnOn? at h
  split at h
  · cases h
  · cases h
    rfl

theorem operands_of_set? {a b : Arguments} {s : Setting} {value : List Char}
    (h : a.set? s value = some b) : b.operands = a.operands := by
  cases s with
  | indentWidth | keywordCase | threads =>
    simp only [set?] at h
    split at h
    · cases h
    · obtain ⟨n, -, rfl⟩ := Option.map_eq_some_iff.mp h
      rfl
  | exclude =>
    cases h
    rfl
  | config =>
    simp only [set?] at h
    split at h
    · cases h
    · cases h
      rfl

/-- The arguments when an option has been read. -/
def Meaning.arguments? : Meaning → Option Arguments
  | .done a => some a
  | .awaits a _ => some a
  | .help => none
  | .version => none

theorem operands_of_letters? {a b : Arguments} {cs : List Char} {meaning : Meaning}
    (h : a.letters? cs = some meaning) (left : meaning.arguments? = some b) :
    b.operands = a.operands := by
  fun_induction letters? a cs with
  | case1 a =>
    cases h
    cases left
    rfl
  | case2 => cases h; cases left
  | case3 => cases h; cases left
  | case4 a =>
    cases h
    cases left
    rfl
  | case5 a _ _ value =>
    obtain ⟨c, set, rfl⟩ := Option.map_eq_some_iff.mp h
    cases left
    exact operands_of_set? set
  | case6 a _ _ value =>
    obtain ⟨c, set, rfl⟩ := Option.map_eq_some_iff.mp h
    cases left
    exact operands_of_set? set
  | case7 => cases h
  | case8 => cases h
  | case9 a c cs _ _ _ s letter a' on ih => exact (ih h).trans (operands_of_turnOn? on)

theorem operands_of_name? {a b : Arguments} {text : List Char} {meaning : Meaning}
    (h : a.name? text = some meaning) (left : meaning.arguments? = some b) :
    b.operands = a.operands := by
  simp only [name?] at h
  split at h
  · split at h
    · cases h
      cases left
    · split at h
      · cases h
        cases left
      · split at h
        · obtain ⟨c, on, rfl⟩ := Option.map_eq_some_iff.mp h
          cases left
          exact operands_of_turnOn? on
        · cases h
          cases left
          rfl
        · cases h
  · split at h
    · obtain ⟨c, set, rfl⟩ := Option.map_eq_some_iff.mp h
      cases left
      exact operands_of_set? set
    · cases h

theorem operands_of_argument? {a b : Arguments} {text : List Char} {meaning : Meaning}
    (option : isOption text = true) (h : a.argument? text = some meaning)
    (left : meaning.arguments? = some b) : b.operands = a.operands := by
  unfold argument? at h
  split at h
  · exact operands_of_name? h left
  · exact operands_of_letters? h left
  · rename_i single double
    unfold isOption at option
    split at option
    · rename_i c cs
      exact absurd rfl (double c cs)
    · cases option

theorem operands_of_options? {a b : Arguments} {opts : List (List Char)}
    (h : a.options? opts = some b) : b.operands = a.operands := by
  fun_induction options? a opts with
  | case1 a =>
    cases h
    rfl
  | case2 => cases h
  | case3 a text opts option a' meaning ih =>
    rw [not_or, Bool.not_eq_false] at option
    exact (ih h).trans (operands_of_argument? option.1 meaning rfl)
  | case4 => cases h
  | case5 => cases h
  | case6 => cases h
  | case7 a text option a' s meaning value opts plain a'' set ih =>
    rw [not_or, Bool.not_eq_false] at option
    exact ((ih h).trans (operands_of_set? set)).trans (operands_of_argument? option.1 meaning rfl)
  | case8 => cases h

/-! ### Operands -/

theorem argument?_operand {a : Arguments} {text : List Char} (plain : isOption text = false)
    (nonempty : text ≠ []) :
    a.argument? text = some (.done { a with operands := a.operands ++ [text] }) := by
  have operand : a.operand? text = some { a with operands := a.operands ++ [text] } := by
    simp [operand?, nonempty]
  unfold argument?
  split
  · cases plain
  · cases plain
  · rw [operand]
    rfl

theorem foldlM_operand? {a : Arguments} {rest : List (List Char)}
    (nonempty : rest.all (!·.isEmpty) = true) :
    rest.foldlM operand? a = some { a with operands := a.operands ++ rest } := by
  induction rest generalizing a with
  | nil => simp
  | cons text rest ih =>
    rw [List.all_cons, Bool.and_eq_true, Bool.not_eq_true'] at nonempty
    have step : a.operand? text = some { a with operands := a.operands ++ [text] } := by
      simp [operand?, nonempty.1]
    rw [List.foldlM_cons, step]
    simpa using ih (a := { a with operands := a.operands ++ [text] }) nonempty.2

theorem read?_operands {a : Arguments} {tail files : List (List Char)}
    (h : operands? tail = some files) :
    a.read? tail = ({ a with operands := a.operands ++ files } : Arguments).request? := by
  induction tail generalizing a files with
  | nil =>
    cases h
    simp [read?]
  | cons text rest ih =>
    rw [operands?] at h
    rw [read?]
    by_cases dashes : text = ['-', '-']
    · rw [if_pos dashes] at h ⊢
      split at h
      · rename_i nonempty
        cases h
        rw [foldlM_operand? nonempty]
        rfl
      · cases h
    · rw [if_neg dashes] at h ⊢
      split at h
      · cases h
      · rename_i plain
        simp only [Bool.or_eq_true, not_or, Bool.not_eq_true, List.isEmpty_eq_false_iff] at plain
        obtain ⟨more, others, rfl⟩ := Option.map_eq_some_iff.mp h
        rw [argument?_operand plain.1 plain.2]
        simpa using ih (a := { a with operands := a.operands ++ [text] }) others

/-- A whole command line: options, then operands. -/
theorem read?_options_operands {o : Arguments} {opts tail files : List (List Char)}
    (options : ({} : Arguments).options? opts = some o) (operands : operands? tail = some files) :
    ({} : Arguments).read? (opts ++ tail) =
      if files.isEmpty then none else some (.run { o with operands := files }) := by
  rw [read?_options options, read?_operands operands, operands_of_options? options]
  rfl

/-- Options that are not whole or not right spoil the command line, whichever operand
follows. -/
theorem read?_of_onlyOptions {a : Arguments} {opts : List (List Char)}
    (only : a.onlyOptions opts = true) (empty : a.operands = []) :
    (∃ b, a.options? opts = some b) ∨
      ∀ f, isOption f = false → a.read? (opts ++ [f]) = none := by
  fun_induction onlyOptions a opts with
  | case1 a => exact .inl ⟨a, rfl⟩
  | case2 => cases only
  | case3 a text rest option wrong =>
    right
    intro f _
    rw [not_or] at option
    rw [List.cons_append, read?, if_neg option.2, wrong]
  | case4 a text rest option a' meaning ih =>
    rw [options?, if_neg option, meaning]
    rw [not_or, Bool.not_eq_false] at option
    refine (ih only ((operands_of_argument? option.1 meaning rfl).trans empty)).imp_right ?_
    intro spoilt f plain
    rw [List.cons_append, read?, if_neg option.2, meaning]
    exact spoilt f plain
  | case5 a text option a' s meaning =>
    -- The operand is taken for the missing value, and no operand is left.
    right
    intro f plain
    rw [not_or, Bool.not_eq_false] at option
    rw [List.singleton_append, read?, if_neg option.2, meaning]
    simp only [plain, Bool.false_eq_true, if_false]
    cases set : a'.set? s f with
    | none => rfl
    | some c =>
      have none : c.operands = [] :=
        (operands_of_set? set).trans ((operands_of_argument? option.1 meaning rfl).trans empty)
      simp [read?, request?, none]
  | case6 a text option a' s meaning value rest looks =>
    right
    intro f _
    rw [not_or] at option
    rw [List.cons_append, List.cons_append, read?, if_neg option.2, meaning]
    simp only [looks, if_true]
  | case7 a text option a' s meaning value rest plain wrong =>
    right
    intro f _
    rw [not_or] at option
    rw [List.cons_append, List.cons_append, read?, if_neg option.2, meaning]
    simp only [if_neg plain, wrong]
  | case8 a text option a' s meaning value rest plain c set ih =>
    rw [options?, if_neg option, meaning]
    simp only [if_neg plain, set]
    rw [not_or, Bool.not_eq_false] at option
    have none : c.operands = [] :=
      (operands_of_set? set).trans ((operands_of_argument? option.1 meaning rfl).trans empty)
    refine (ih only none).imp_right ?_
    intro spoilt f other
    rw [List.cons_append, List.cons_append, read?, if_neg option.2, meaning]
    simp only [if_neg plain, set]
    exact spoilt f other
  | case9 => cases only

/-! ### One more switch -/

theorem read?_check {a : Arguments} (off : a.has .check = false) (rest : List (List Char)) :
    a.read? ("--check".toList :: rest) =
      ({ a with switches := a.switches ++ [.check] } : Arguments).read? rest := by
  have meaning : a.argument? "--check".toList =
      some (.done { a with switches := a.switches ++ [.check] }) := by
    change a.name? "check".toList = _
    have name : String.ofList ("check".toList.takeWhile (· != '=')) = "check" := by decide
    have whole : "check".toList.dropWhile (· != '=') = [] := by decide
    rw [name?, name, whole]
    simp [Switch.ofName?, turnOn?, off]
  rw [read?, if_neg (by decide), meaning]

theorem read?_options_check {o : Arguments} {opts tail files : List (List Char)}
    (options : ({} : Arguments).options? opts = some o) (operands : operands? tail = some files)
    (off : o.has .check = false) :
    ({} : Arguments).read? (opts ++ "--check".toList :: tail) = if files.isEmpty then none
      else some (.run { o with operands := files, switches := o.switches ++ [.check] }) := by
  rw [read?_options options, read?_check off, read?_operands operands,
    operands_of_options? options]
  rfl

/-! ### The options of the help -/

theorem switch_iff_help (name : String) :
    (Switch.ofName? name).isSome = true ∨ name = "help" ∨ name = "version" ↔
      ∃ e ∈ Help.entries, e.name = name ∧ e.value = none := by
  constructor
  · rintro (known | rfl | rfl)
    · unfold Switch.ofName? at known
      split at known
      all_goals try decide
      cases known
    · decide
    · decide
  · have all : ∀ e ∈ Help.entries, e.value = none →
        (Switch.ofName? e.name).isSome = true ∨ e.name = "help" ∨ e.name = "version" := by decide
    rintro ⟨e, listed, rfl, plain⟩
    exact all e listed plain

theorem setting_iff_help (name : String) : (Setting.ofName? name).isSome = true ↔
    ∃ e ∈ Help.entries, e.name = name ∧ e.value.isSome = true := by
  constructor
  · intro known
    unfold Setting.ofName? at known
    split at known
    all_goals try decide
    cases known
  · have all : ∀ e ∈ Help.entries, e.value.isSome = true →
        (Setting.ofName? e.name).isSome = true := by decide
    rintro ⟨e, listed, rfl, valued⟩
    exact all e listed valued

end TidySql.Arguments
