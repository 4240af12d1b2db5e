import TidySql.Mode

/-! The arguments of the command line. -/
namespace TidySql

inductive Switch where
  | check
  | diff
  | fast
  | verbose
  | quiet
  | noProgressBar
  | forceColor
  | noColor
  | singleProcess
  deriving DecidableEq, Repr

namespace Switch

def ofName? : String → Option Switch
  | "check" => some check
  | "diff" => some diff
  | "fast" => some fast
  | "verbose" => some verbose
  | "quiet" => some quiet
  | "no-progressbar" => some noProgressBar
  | "force-color" => some forceColor
  | "no-color" => some noColor
  | "single-process" => some singleProcess
  | _ => none

def ofLetter? : Char → Option Switch
  | 'v' => some verbose
  | 'q' => some quiet
  | _ => none

end Switch

inductive Setting where
  | indentWidth
  | keywordCase
  | exclude
  | threads
  | config
  deriving DecidableEq, Repr

def Setting.ofName? : String → Option Setting
  | "indent-width" => some .indentWidth
  | "keyword-case" => some .keywordCase
  | "exclude" => some .exclude
  | "threads" => some .threads
  | "config" => some .config
  | _ => none

structure Arguments where
  operands : List (List Char) := []
  switches : List Switch := []
  indentWidth : Option Nat := none
  keywordCase : Option KeywordCase := none
  /-- Patterns in the order in which they are given. -/
  exclude : List (List Char) := []
  threads : Option Nat := none
  config : Option (List Char) := none
  deriving DecidableEq, Repr

inductive Request where
  | run (a : Arguments)
  | help
  | version

namespace Arguments

def has (a : Arguments) (s : Switch) : Bool := a.switches.contains s

/-- Turns a switch on. It may be given only once. -/
def turnOn? (a : Arguments) (s : Switch) : Option Arguments :=
  if a.has s then none else some { a with switches := a.switches ++ [s] }

/-- A number that fits in 64 bits, with or without a plus sign. -/
def number? (text : List Char) : Option Nat :=
  let digits := if text.head? = some '+' then text.tail else text
  if digits.isEmpty ∨ !digits.all Char.isDigit then none
  else
    let n := digits.foldl (fun n c => n * 10 + (c.toNat - '0'.toNat)) 0
    if n < UInt64.size then some n else none

/-- Gives a setting its value. Only patterns may be given more than once. -/
def set? (a : Arguments) (s : Setting) (value : List Char) : Option Arguments :=
  match s with
  | .indentWidth =>
    if a.indentWidth.isSome then none
    else (number? value).map fun n => { a with indentWidth := some n }
  | .keywordCase =>
    if a.keywordCase.isSome then none
    else (KeywordCase.ofName? (String.ofList value)).map fun k => { a with keywordCase := some k }
  | .exclude => some { a with exclude := a.exclude ++ [value] }
  | .threads =>
    if a.threads.isSome then none
    else (number? value).map fun n => { a with threads := some n }
  | .config =>
    if a.config.isSome ∨ value.isEmpty then none else some { a with config := some value }

/-- Adds an operand, which may not be empty. -/
def operand? (a : Arguments) (text : List Char) : Option Arguments :=
  if text.isEmpty then none else some { a with operands := a.operands ++ [text] }

/-- The argument is an option and no value. A single dash is a value. -/
def isOption (text : List Char) : Bool :=
  match text with
  | '-' :: _ :: _ => true
  | _ => false

inductive Meaning where
  /-- It is dealt with by itself. -/
  | done (a : Arguments)
  /-- The next argument is the value of a setting. -/
  | awaits (a : Arguments) (s : Setting)
  | help
  | version

/-- Reads the letters after a single dash. A setting takes the letters after it as its
value, also after an equality sign. -/
def letters? (a : Arguments) : List Char → Option Meaning
  | [] => some (.done a)
  | c :: cs =>
    if c = 'h' then some .help
    else if c = 'V' then some .version
    else if c = 't' then
      match cs with
      | [] => some (.awaits a .threads)
      | '=' :: value => (a.set? .threads value).map .done
      | value => (a.set? .threads value).map .done
    else
      match Switch.ofLetter? c with
      | none => none
      | some s =>
        match a.turnOn? s with
        | none => none
        | some a => a.letters? cs

/-- Reads the name after two dashes, with the value after an equality sign. -/
def name? (a : Arguments) (text : List Char) : Option Meaning :=
  let name := String.ofList (text.takeWhile (· != '='))
  match text.dropWhile (· != '=') with
  | [] =>
    if name = "help" then some .help
    else if name = "version" then some .version
    else
      match Switch.ofName? name, Setting.ofName? name with
      | some s, _ => (a.turnOn? s).map .done
      | none, some s => some (.awaits a s)
      | none, none => none
  | _ :: value =>
    match Setting.ofName? name with
    | some s => (a.set? s value).map .done
    | none => none

def argument? (a : Arguments) (text : List Char) : Option Meaning :=
  match text with
  | '-' :: '-' :: name => a.name? name
  | '-' :: c :: cs => a.letters? (c :: cs)
  | _ => (a.operand? text).map .done

def request? (a : Arguments) : Option Request :=
  if a.operands.isEmpty then none else some (.run a)

/-- Reads arguments in order, and is undefined if one is wrong. After two dashes alone
all arguments are operands. -/
def read? (a : Arguments) : List (List Char) → Option Request
  | [] => a.request?
  | text :: rest =>
    if text = ['-', '-'] then do
      let a ← rest.foldlM operand? a
      a.request?
    else
      match a.argument? text with
      | none => none
      | some (.done a) => a.read? rest
      | some .help => some .help
      | some .version => some .version
      | some (.awaits a s) =>
        match rest with
        | [] => none
        | value :: rest =>
          if isOption value then none
          else
            match a.set? s value with
            | none => none
            | some a => a.read? rest

/-- The mode that arguments ask for on top of a configured one. Of the configured mode
only the three options of a configuration file count, and an argument wins over them. -/
def toMode (a : Arguments) (configured : Mode) : Mode where
  indentWidth := a.indentWidth.getD configured.indentWidth
  keywordCase := a.keywordCase.getD configured.keywordCase
  check := a.has .check
  diff := a.has .diff
  fast := a.has .fast
  exclude := if a.exclude.isEmpty then configured.exclude else a.exclude
  verbose := a.has .verbose
  quiet := a.has .quiet
  noProgressBar := a.has .noProgressBar
  noColor := a.has .noColor
  forceColor := a.has .forceColor
  threads := a.threads.getD 0
  singleProcess := a.has .singleProcess

end Arguments
end TidySql
