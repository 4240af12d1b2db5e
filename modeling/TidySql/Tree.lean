import TidySql.Path

/-! The tree of files and directories that a run sees.
It is a table from locations to entries, where a location is the list of names from
the root down. There are no links, so each location is one file or directory, and what
stands at each location (`get?`) is all that a tree says. Every entry but those of the
root stands in a directory. Writing a file changes one location, and this is
`get?_replaceAt`. -/
namespace TidySql

abbrev Name := List Char

abbrev Location := List Name

inductive Entry where
  | file (content : List UInt8)
  | directory
  deriving DecidableEq, Repr

def Entry.mapContent (f : List UInt8 → List UInt8) : Entry → Entry
  | file content => file (f content)
  | directory => directory

structure Tree where
  /-- The working directory, from which relative paths start. -/
  cwd : Location
  entries : List (Location × Entry)
  distinct : (entries.map Prod.fst).Nodup
  named : ∀ l e, (l, e) ∈ entries → l ≠ [] ∧ ∀ n ∈ l, Path.isName n = true
  closed : ∀ l n e, (l ++ [n], e) ∈ entries → l = [] ∨ (l, .directory) ∈ entries

namespace Tree

theorem lookup_map_snd {α β : Type} [BEq α] [LawfulBEq α] (f : α → β → β) (xs : List (α × β))
    (k : α) :
    (xs.map fun x => (x.1, f x.1 x.2)).lookup k = (xs.lookup k).map (f k) := by
  induction xs with
  | nil => rfl
  | cons x xs ih =>
    obtain ⟨a, b⟩ := x
    by_cases h : k == a
    · obtain rfl := eq_of_beq h
      simp
    · simp [List.lookup_cons, h, ih]

theorem lookup_eq_some_iff {α β : Type} [BEq α] [LawfulBEq α] {xs : List (α × β)}
    (distinct : (xs.map Prod.fst).Nodup) (k : α) (v : β) : xs.lookup k = some v ↔ (k, v) ∈ xs := by
  induction xs with
  | nil => simp
  | cons x xs ih =>
    obtain ⟨a, b⟩ := x
    rw [List.map_cons, List.nodup_cons] at distinct
    by_cases h : k == a
    · obtain rfl := eq_of_beq h
      have other : (k, v) ∉ xs := fun m => distinct.1 (List.mem_map.mpr ⟨_, m, rfl⟩)
      simp [other, eq_comm]
    · simp [List.lookup_cons, h, ih distinct.2, show k ≠ a by simpa using h]

/-- A tree in which nothing but the root is known. -/
def empty (cwd : Location) : Tree where
  cwd := cwd
  entries := []
  distinct := List.nodup_nil
  named := by simp
  closed := by simp

/-- What stands at a location. The root is a directory. -/
def get? (t : Tree) (l : Location) : Option Entry :=
  if l = [] then some .directory else t.entries.lookup l

/-- One step of a path, from a location that must be a directory. -/
def enter (t : Tree) (l : Location) (piece : List Char) : Option Location :=
  if t.get? l ≠ some .directory then none
  else if piece = [] ∨ piece = ['.'] then some l
  else if piece = ['.', '.'] then some l.dropLast
  else if (t.get? (l ++ [piece])).isSome then some (l ++ [piece])
  else none

/-- The location that a path leads to. The empty path leads nowhere. -/
def locate? (t : Tree) (path : List Char) : Option Location :=
  if path = [] then none
  else (Path.pieces path).foldlM t.enter (if Path.isAbsolute path then [] else t.cwd)

def find? (t : Tree) (path : List Char) : Option Entry := (t.locate? path).bind t.get?

def contains (t : Tree) (path : List Char) : Bool := (t.find? path).isSome

def isDirectory (t : Tree) (path : List Char) : Bool := t.find? path == some .directory

def isFile (t : Tree) (path : List Char) : Bool :=
  match t.find? path with
  | some (.file _) => true
  | _ => false

def children (t : Tree) (l : Location) : List (Name × Entry) :=
  t.entries.filterMap fun (loc, e) =>
    match loc.getLast? with
    | some n => if loc.dropLast = l then some (n, e) else none
    | none => none

def depth (t : Tree) : Nat := (t.entries.map fun (l, _) => l.length).foldl max 0

/-- The tree with other contents in its files. -/
def mapFiles (t : Tree) (f : Location → List UInt8 → List UInt8) : Tree where
  cwd := t.cwd
  entries := t.entries.map fun x => (x.1, x.2.mapContent (f x.1))
  distinct := by simpa [Function.comp_def] using t.distinct
  named := by
    intro l e found
    obtain ⟨x, member, same⟩ := List.mem_map.mp found
    cases same
    exact t.named _ _ member
  closed := by
    intro l n e found
    obtain ⟨⟨k, e'⟩, member, same⟩ := List.mem_map.mp found
    obtain rfl : k = l ++ [n] := congrArg Prod.fst same
    rcases t.closed l n e' member with root | above
    · exact .inl root
    · exact .inr (List.mem_map.mpr ⟨_, above, rfl⟩)

/-- The tree after the file at a location has got new content. Where no file stands,
nothing changes. -/
def replaceAt (t : Tree) (l : Location) (content : List UInt8) : Tree :=
  t.mapFiles fun k old => if k = l then content else old

/-- The tree after the file where a path leads has got new content. -/
def write (t : Tree) (path : List Char) (content : List UInt8) : Tree :=
  match t.locate? path with
  | none => t
  | some l => t.replaceAt l content

/-- An entry can be put at the location: none stands there, and it is in a directory. -/
def admits (t : Tree) (l : Location) : Prop :=
  l ∉ t.entries.map Prod.fst ∧ l ≠ [] ∧ (∀ n ∈ l, Path.isName n = true) ∧
    t.get? l.dropLast = some .directory

instance (t : Tree) (l : Location) : Decidable (t.admits l) :=
  inferInstanceAs (Decidable (_ ∧ _))

/-- Puts an entry at a location where nothing stands yet. -/
def put (t : Tree) (l : Location) (e : Entry) : Tree :=
  if h : t.admits l then
    { t with
      entries := t.entries ++ [(l, e)]
      distinct := by
        rw [List.map_append, List.nodup_append]
        refine ⟨t.distinct, by simp, ?_⟩
        rintro a ha b hb rfl
        exact h.1 (by simpa [List.mem_singleton.mp hb] using ha)
      named := by
        intro k e' found
        rcases List.mem_append.mp found with old | new
        · exact t.named k e' old
        · cases List.mem_singleton.mp new
          exact ⟨h.2.1, h.2.2.1⟩
      closed := by
        intro k n e' found
        rcases List.mem_append.mp found with old | new
        · exact (t.closed k n e' old).imp_right (List.mem_append_left _)
        · have above := h.2.2.2
          rw [← (Prod.mk.inj (List.mem_singleton.mp new)).1, List.dropLast_concat] at above
          by_cases root : k = []
          · exact .inl root
          · rw [get?, if_neg root, lookup_eq_some_iff t.distinct] at above
            exact .inr (List.mem_append_left _ above) }
  else t

/-- Puts an entry in a tree, and the directories on the way to it. What is there
already stays. -/
def insert (t : Tree) (l : Location) (e : Entry) : Tree :=
  ((List.range (l.length - 1)).foldl (fun t n => t.put (l.take (n + 1)) .directory) t).put l e

/-- A location below the root has one entry in the table, or none. -/
theorem get?_eq_some_iff (t : Tree) {l : Location} (below : l ≠ []) (e : Entry) :
    t.get? l = some e ↔ (l, e) ∈ t.entries := by
  rw [get?, if_neg below]
  exact lookup_eq_some_iff t.distinct l e

theorem mem_children_iff (t : Tree) (l : Location) (n : Name) (e : Entry) :
    (n, e) ∈ t.children l ↔ t.get? (l ++ [n]) = some e := by
  rw [get?_eq_some_iff t (by simp), children, List.mem_filterMap]
  constructor
  · rintro ⟨⟨loc, e'⟩, found, h⟩
    cases last : loc.getLast? with
    | none => simp [last] at h
    | some m =>
      obtain ⟨lead, rfl⟩ := List.getLast?_eq_some_iff.mp last
      simp only [last, List.dropLast_concat, Option.ite_none_right_eq_some, Option.some.injEq,
        Prod.mk.injEq] at h
      obtain ⟨rfl, rfl, rfl⟩ := h
      exact found
  · intro found
    exact ⟨_, found, by simp⟩

theorem get?_mapFiles (t : Tree) (f : Location → List UInt8 → List UInt8) (k : Location) :
    (t.mapFiles f).get? k = (t.get? k).map (Entry.mapContent (f k)) := by
  unfold get? mapFiles
  by_cases root : k = []
  · rw [if_pos root, if_pos root]
    rfl
  · simp only [if_neg root]
    exact lookup_map_snd (fun loc e => Entry.mapContent (f loc) e) t.entries k

theorem get?_replaceAt (t : Tree) (l k : Location) (content : List UInt8) :
    (t.replaceAt l content).get? k =
      if k = l then (t.get? k).map (Entry.mapContent fun _ => content) else t.get? k := by
  rw [replaceAt, get?_mapFiles]
  by_cases eq : k = l
  · simp only [if_pos eq]
  · have same : Entry.mapContent (fun old => old) = id := by
      funext e
      cases e <;> rfl
    simp only [if_neg eq, same, Option.map_id, id]

/-- What stands somewhere stands in a directory. -/
theorem get?_above (t : Tree) (l : Location) (n : Name) (stands : (t.get? (l ++ [n])).isSome) :
    t.get? l = some .directory := by
  obtain ⟨e, found⟩ := Option.isSome_iff_exists.mp stands
  rw [get?_eq_some_iff t (by simp)] at found
  by_cases root : l = []
  · rw [get?, if_pos root]
  · rw [get?_eq_some_iff t root]
    exact (t.closed l n e found).resolve_left root

end Tree
end TidySql
