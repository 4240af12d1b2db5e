import TidySql.Toml.Value

/-! Numbers and moments in time.
A run of letters, digits and marks is read as a whole: it is a date, a time, a float
or an integer, or it is nothing. -/
namespace TidySql.Toml.Number

def digitValue? (c : Char) : Option Nat :=
  if '0' ≤ c ∧ c ≤ '9' then some (c.toNat - '0'.toNat)
  else if 'a' ≤ c ∧ c ≤ 'f' then some (c.toNat - 'a'.toNat + 10)
  else if 'A' ≤ c ∧ c ≤ 'F' then some (c.toNat - 'A'.toNat + 10)
  else none

/-- The number that digits of a base write. There must be at least one. -/
def natural? (base : Nat) (cs : List Char) : Option Nat :=
  if cs.isEmpty then none
  else cs.foldlM (fun n c => do
    let d ← digitValue? c
    if d < base then some (n * base + d) else none) 0

/-- Digits without the underscores between them. An underscore must stand between
two digits. -/
def withoutUnderscores? : List Char → Option (List Char)
  | [] => some []
  | ['_'] => none
  | '_' :: _ :: _ => none
  | c :: '_' :: d :: cs => if d = '_' then none else (withoutUnderscores? (d :: cs)).map (c :: ·)
  | c :: cs => (withoutUnderscores? cs).map (c :: ·)

def digits? (base : Nat) (cs : List Char) : Option Nat :=
  (withoutUnderscores? cs).bind (natural? base)

/-- The sign, if there is one, and the text after it. -/
def splitSign : List Char → Bool × List Char
  | '-' :: cs => (true, cs)
  | '+' :: cs => (false, cs)
  | cs => (false, cs)

/-- Decimal digits that do not start with a needless zero. -/
def decimal? (cs : List Char) : Option Nat :=
  match cs with
  | '0' :: _ :: _ => none
  | _ => digits? 10 cs

/-- Integers have 64 bits and a sign. -/
def inRange (n : Int) : Bool :=
  decide (-9223372036854775808 ≤ n) && decide (n ≤ 9223372036854775807)

def integer? (cs : List Char) : Option Int := do
  let n ← match cs with
    | '0' :: 'x' :: ds => (digits? 16 ds).map Int.ofNat
    | '0' :: 'o' :: ds => (digits? 8 ds).map Int.ofNat
    | '0' :: 'b' :: ds => (digits? 2 ds).map Int.ofNat
    | _ =>
      let (negative, ds) := splitSign cs
      (decimal? ds).map fun n => if negative then -(n : Int) else n
  if inRange n then some n else none

/-- The value is at least the midpoint of the largest double and the next power of
two, from where on it rounds to infinity. -/
def overflows (digits : Nat) (exponent : Int) : Bool :=
  let limit := Nat.pow 2 1024 - Nat.pow 2 970
  if digits = 0 then false
  else if exponent > 400 then true
  else if exponent ≥ 0 then decide (digits * Nat.pow 10 exponent.toNat ≥ limit)
  else decide (digits ≥ limit * Nat.pow 10 (-exponent).toNat)

/-- A decimal digit, or an underscore between two. -/
def isDigitPart (c : Char) : Bool := c.isDigit || c == '_'

/-- The digits after the point, and the text after them. No point counts as no
digits, and a point needs at least one. -/
def splitFraction? : List Char → Option (List Char × List Char)
  | '.' :: cs => do
    let ds ← withoutUnderscores? (cs.takeWhile isDigitPart)
    if ds.isEmpty then none else some (ds, cs.dropWhile isDigitPart)
  | cs => some ([], cs)

/-- The power of ten, which is 0 if no text is left to write one. -/
def exponent? : List Char → Option Int
  | [] => some 0
  | e :: cs =>
    if e = 'e' ∨ e = 'E' then
      let (negative, ds) := splitSign cs
      (digits? 10 ds).map fun n => if negative then -(n : Int) else n
    else none

/-- A decimal float: a fraction, an exponent, or both. A positive one must be finite. -/
def isFloat (cs : List Char) : Bool :=
  let (negative, cs) := splitSign cs
  if cs = "inf".toList ∨ cs = "nan".toList then true
  else
    let rest := cs.dropWhile isDigitPart
    (do
      let whole ← decimal? (cs.takeWhile isDigitPart)
      let (fraction, rest') ← splitFraction? rest
      let power ← exponent? rest'
      let digits := whole * Nat.pow 10 fraction.length + (natural? 10 fraction).getD 0
      some (!rest.isEmpty && (negative || !overflows digits (power - fraction.length)))) ==
    some true

/-- Exactly `n` decimal digits, with their value and what follows them. -/
def fixed? (n : Nat) (cs : List Char) : Option (Nat × List Char) :=
  let ds := cs.take n
  if ds.length = n ∧ ds.all Char.isDigit then (natural? 10 ds).map (·, cs.drop n) else none

def mark? (p : Char → Bool) : List Char → Option (List Char)
  | c :: cs => if p c then some cs else none
  | [] => none

def daysIn (year month : Nat) : Nat :=
  if month = 2 then
    if year % 4 = 0 ∧ (year % 100 ≠ 0 ∨ year % 400 = 0) then 29 else 28
  else if month = 4 ∨ month = 6 ∨ month = 9 ∨ month = 11 then 30
  else 31

def date? (cs : List Char) : Option (List Char) := do
  let (year, cs) ← fixed? 4 cs
  let cs ← mark? (· == '-') cs
  let (month, cs) ← fixed? 2 cs
  let cs ← mark? (· == '-') cs
  let (day, cs) ← fixed? 2 cs
  if 1 ≤ month ∧ month ≤ 12 ∧ 1 ≤ day ∧ day ≤ daysIn year month then some cs else none

def time? (cs : List Char) : Option (List Char) := do
  let (hour, cs) ← fixed? 2 cs
  let cs ← mark? (· == ':') cs
  let (minute, cs) ← fixed? 2 cs
  let cs ← mark? (· == ':') cs
  let (second, cs) ← fixed? 2 cs
  if hour ≤ 23 ∧ minute ≤ 59 ∧ second ≤ 60 then
    match cs with
    | '.' :: ds => if (ds.head?.any Char.isDigit) then some (ds.dropWhile Char.isDigit) else none
    | _ => some cs
  else none

/-- What may follow a date and a time: nothing, or an offset. -/
def isOffset (cs : List Char) : Bool :=
  match cs with
  | [] => true
  | ['Z'] | ['z'] => true
  | sign :: cs => (sign == '+' || sign == '-') && (do
      let (hour, cs) ← fixed? 2 cs
      let cs ← mark? (· == ':') cs
      let (minute, cs) ← fixed? 2 cs
      some (decide (hour ≤ 23) && decide (minute ≤ 59) && cs.isEmpty)) == some true

def isDate (cs : List Char) : Bool := date? cs == some []

def isMoment (cs : List Char) : Bool :=
  time? cs == some [] ||
    match date? cs with
    | none => false
    | some [] => true
    | some (c :: rest) => (c == 'T' || c == 't' || c == ' ') && (time? rest).any isOffset

/-- A character that may be part of a number or of a moment. -/
def isPart (c : Char) : Bool :=
  c.isAlphanum || c == '+' || c == '-' || c == '_' || c == '.' || c == ':'

def value? (cs : List Char) : Option Value :=
  if isMoment cs then some (.datetime cs)
  else match integer? cs with
    | some n => some (.integer n)
    | none => if isFloat cs then some (.float cs) else none

end TidySql.Toml.Number
