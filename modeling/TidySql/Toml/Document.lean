import TidySql.Toml.Reader

/-! TOML documents.
A document is a table. A line of it either names the table that the next lines
extend or puts a value into it, and no key may be given twice. -/
namespace TidySql.Toml

/-- Changes the table that a path leads to, and makes the tables on the way that are
missing. An array of tables stands for its last table. A dotted key passes only
through tables that no header wrote. -/
def Entries.update (viaKey : Bool) (change : Origin → Entries → Except Problem Entries) :
    List (List Char) → Origin → Entries → Except Problem Entries
  | [], origin, es => change origin es
  | k :: ks, _, es =>
    match es.find? k with
    | none => do
      let origin := if viaKey then .dotted else .implied
      let sub ← update viaKey change ks origin []
      return es ++ [(k, .table origin sub)]
    | some (.table origin sub) =>
      if origin = .inline then throw (.notTable [k] "inline table")
      else if viaKey ∧ origin = .header then throw (.duplicate k none)
      else return es.replace k (.table origin (← update viaKey change ks origin sub))
    | some (.array true items) =>
      match items.getLast? with
      | some (.table origin sub) =>
        return es.replace k
          (.array true (items.dropLast ++ [.table origin (← update viaKey change ks origin sub)]))
      | _ => throw (.notTable [k] "array")
    | some v => throw (.notTable [k] v.typeName)

/-- Puts a value under a key of several parts. The table that holds it must itself
have been made by dotted keys if the key has more than one part. -/
def Entries.assign (path : List (List Char)) (key : List Char) (v : Value)
    (table : List (List Char)) (es : Entries) : Except Problem Entries :=
  es.update true (fun origin es =>
    if (origin = .dotted) = path.isEmpty then throw (.duplicate key none)
    else if (es.find? key).isSome then throw (.duplicate key (some table))
    else return es ++ [(key, v)]) path .header

/-- Opens the table of a header. Only a table that longer headers made may be there
already. -/
def Entries.openTable (path : List (List Char)) (key : List Char) (es : Entries) :
    Except Problem Entries :=
  es.update false (fun _ es =>
    match es.find? key with
    | none => return es ++ [(key, .table .header [])]
    | some (.table .implied sub) => return es.replace key (.table .header sub)
    | some _ => throw (.duplicate key (some path))) path .header

/-- Opens a new table at the end of an array of tables. -/
def Entries.openItem (path : List (List Char)) (key : List Char) (es : Entries) :
    Except Problem Entries :=
  es.update false (fun _ es =>
    match es.find? key with
    | none => return es ++ [(key, .array true [.table .header []])]
    | some (.array true items) =>
      return es.replace key (.array true (items ++ [.table .header []]))
    | some _ => throw (.duplicate key (some path))) path .header

namespace Reader

/-- Fails with the problem of a change to a table, at the given place. -/
def change {α : Type} (start : List Char) (r : Except Problem α) : Reader α :=
  match r with
  | .ok a => pure a
  | .error p => do set start; fail p

def pair (value : Reader Value) : Reader (List (List Char) × Value) := do
  let path ← key
  expect "=" .separator
  skipSpaces
  return (path, ← value)

def arrayBody (value : Reader Value) : Reader Value := do
  skipLines
  let items ← many do
    if (← peek?) = some ']' then return none
    else do
      let v ← value
      skipLines
      if ← accept "," then skipLines
      else if (← peek?) ≠ some ']' then fail .arrayEnd
      return some v
  expect "]" .arrayEnd
  return .array false items

def inlineTableBody (value : Reader Value) : Reader Value := do
  let start ← get
  skipSpaces
  let first ← if (← peek?) = some '\x7d' then pure [] else do
    let p ← pair value
    skipSpaces
    pure [p]
  let more ← many do
    if ← accept "," then do
      let p ← pair value
      skipSpaces
      return some p
    else return none
  expect "\x7d" .inlineTableEnd
  let es ← (first ++ more).foldlM (fun es (path, v) =>
    change start (Entries.assign path.dropLast (path.getLast?.getD []) v [] es)) []
  return .table .inline es

/-- A value. Arrays and inline tables are read by the given readers. -/
def valueWith (array table : Reader Value) : Reader Value := do
  match ← peek? with
  | none => fail .missingValue
  | some '\x22' =>
    if ← accept "\"\"\"" then return .string (← multilineBasicBody)
    else do skip 1; return .string (← basicBody)
  | some '\x27' =>
    if ← accept "'''" then return .string (← multilineLiteralBody)
    else do skip 1; return .string (← literalBody)
  | some '[' => do skip 1; array
  | some '\x7b' => do skip 1; table
  | some 't' => do expect "true" .value; return .boolean true
  | some 'f' => do expect "false" .value; return .boolean false
  | some c =>
    if c.isDigit ∨ ['+', '-', '_', '.', 'i', 'n'].contains c then number else fail .value

/-- A value that holds at most `n` arrays and inline tables in each other. -/
def value : Nat → Reader Value
  | 0 => valueWith (fail .nesting) (fail .nesting)
  | n + 1 => valueWith (arrayBody (value n)) (inlineTableBody (value n))

end Reader

/-- The part of a document that is read: its table, and the path of the table that
the next lines extend. -/
structure Document where
  root : Entries := []
  current : List (List Char) := []

namespace Document
open Reader

def readHeader (d : Document) : Reader Document := do
  let start ← get
  let double ← accept "[["
  if !double then skip 1
  let path ← key
  expect (if double then "]]" else "]") .headerEnd
  endLine .headerLineEnd
  let parents := path.dropLast
  let last := path.getLast?.getD []
  let root ← change start
    (if double then d.root.openItem parents last else d.root.openTable parents last)
  return ⟨root, path⟩

def readPair (d : Document) : Reader Document := do
  let start ← get
  let (path, v) ← pair (value maxDepth)
  endLine .lineEnd
  let root ← change start (d.root.update false (fun _ es =>
    es.assign path.dropLast (path.getLast?.getD []) v d.current) d.current .header)
  return { d with root }

def readLine (d : Document) : Reader Document := do
  skipSpaces
  match ← peek? with
  | none => return d
  | some '[' => d.readHeader
  | some c =>
    if c = '#' ∨ c = '\n' ∨ c = '\r' then do
      endLine .key
      return d
    else d.readPair

def readLines : Nat → Document → Reader Document
  | 0, d => pure d
  | n + 1, d => do
    if (← get).isEmpty then return d
    else readLines n (← d.readLine)

end Document

/-- Reads a document. A byte order mark may precede it. Each line takes at least one
character, so the length of the text bounds their number. -/
def parse (source : List Char) : Except Error Entries :=
  let body := if source.head? = some '\ufeff' then source.tail else source
  match (Document.readLines (body.length + 1) {}).run body with
  | .ok (d, _) => .ok d.root
  | .error f =>
    .error ⟨source.take (source.length - f.rest.length), f.rest, f.problem⟩

end TidySql.Toml
