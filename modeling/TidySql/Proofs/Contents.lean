import TidySql.Config
import TidySql.Selection

/-! What the contents of files have no part in.
Where paths lead, which files operands stand for and which configuration file is found
depend on names alone. So all of it is the same on a tree whose files got other contents,
and on the tree that a write leaves. -/
namespace TidySql

variable (t : Tree) (f : Location → List UInt8 → List UInt8)

theorem Entry.mapContent_mapContent (g h : List UInt8 → List UInt8) (e : Entry) :
    (e.mapContent g).mapContent h = e.mapContent (h ∘ g) := by
  cases e <;> rfl

theorem Entry.mapContent_eq_directory_iff (g : List UInt8 → List UInt8) (e : Entry) :
    e.mapContent g = .directory ↔ e = .directory := by
  cases e with
  | file content => simp [mapContent]
  | directory => simp [mapContent]

namespace Tree

theorem mapFiles_id : t.mapFiles (fun _ content => content) = t := by
  have same : ∀ e : Entry, e.mapContent (fun content => content) = e := by
    intro e
    cases e <;> rfl
  simp [mapFiles, same]

theorem mapFiles_mapFiles (g : Location → List UInt8 → List UInt8) :
    (t.mapFiles f).mapFiles g = t.mapFiles fun l => g l ∘ f l := by
  simp [mapFiles, Entry.mapContent_mapContent, Function.comp_def]

theorem get?_mapFiles_eq_directory_iff (l : Location) :
    (t.mapFiles f).get? l = some .directory ↔ t.get? l = some .directory := by
  rw [get?_mapFiles, Option.map_eq_some_iff]
  simp [Entry.mapContent_eq_directory_iff]

theorem enter_mapFiles : (t.mapFiles f).enter = t.enter := by
  funext l piece
  have stands : ((t.mapFiles f).get? (l ++ [piece])).isSome = (t.get? (l ++ [piece])).isSome := by
    rw [get?_mapFiles, Option.isSome_map]
  simp only [enter, ne_eq, get?_mapFiles_eq_directory_iff, stands]

theorem locate?_mapFiles (path : List Char) : (t.mapFiles f).locate? path = t.locate? path := by
  unfold locate?
  rw [enter_mapFiles]
  rfl

theorem find?_mapFiles (path : List Char) : (t.mapFiles f).find? path =
    (t.locate? path).bind fun l => (t.get? l).map (Entry.mapContent (f l)) := by
  rw [find?, locate?_mapFiles]
  exact congrArg _ (funext (get?_mapFiles t f))

theorem contains_mapFiles (path : List Char) :
    (t.mapFiles f).contains path = t.contains path := by
  rw [contains, contains, find?_mapFiles, find?]
  cases t.locate? path <;> simp

theorem isDirectory_mapFiles (path : List Char) :
    (t.mapFiles f).isDirectory path = t.isDirectory path := by
  rw [isDirectory, isDirectory, find?_mapFiles, find?]
  cases t.locate? path with
  | none => rfl
  | some l =>
    rw [Option.bind_some, Option.bind_some, ← get?_mapFiles, Bool.eq_iff_iff, beq_iff_eq,
      beq_iff_eq]
    exact get?_mapFiles_eq_directory_iff t f l

theorem isFile_mapFiles (path : List Char) : (t.mapFiles f).isFile path = t.isFile path := by
  rw [isFile, isFile, find?_mapFiles, find?]
  cases t.locate? path with
  | none => rfl
  | some l =>
    rw [Option.bind_some, Option.bind_some]
    cases t.get? l with
    | none => rfl
    | some e => cases e <;> rfl

theorem isFile_iff (path : List Char) :
    t.isFile path = true ↔ ∃ content, t.find? path = some (.file content) := by
  unfold isFile
  cases t.find? path with
  | none => simp
  | some e => cases e <;> simp

theorem children_mapFiles (l : Location) : (t.mapFiles f).children l =
    (t.children l).map fun x => (x.1, x.2.mapContent (f (l ++ [x.1]))) := by
  unfold children mapFiles
  rw [List.filterMap_map, List.map_filterMap]
  congr 1
  funext ⟨k, e⟩
  cases last : k.getLast? with
  | none => simp [last]
  | some n =>
    obtain ⟨lead, rfl⟩ := List.getLast?_eq_some_iff.mp last
    by_cases here : lead = l
    · simp [here]
    · simp [here]

theorem depth_mapFiles : (t.mapFiles f).depth = t.depth := by
  unfold depth mapFiles
  rw [List.map_map]
  rfl

theorem write_eq (path : List Char) (content : List UInt8) : t.write path content =
    t.mapFiles fun l old => if t.locate? path = some l then content else old := by
  unfold write
  cases t.locate? path with
  | none => simp [mapFiles_id]
  | some l => simp only [replaceAt, Option.some.injEq, eq_comm]

theorem isFile_write (path : List Char) (content : List UInt8) (other : List Char) :
    (t.write path content).isFile other = t.isFile other := by
  rw [write_eq, isFile_mapFiles]

theorem write_write (path : List Char) (old new : List UInt8) :
    (t.write path old).write path new = t.write path new := by
  rw [write_eq, write_eq t path old, locate?_mapFiles, mapFiles_mapFiles, write_eq]
  congr 1
  funext l content
  by_cases here : t.locate? path = some l
  · simp [here]
  · simp [here]

theorem find?_write_of_eq {path other : List Char} (content : List UInt8)
    (same : t.locate? other = t.locate? path) : (t.write path content).find? other =
      (t.find? other).map (Entry.mapContent fun _ => content) := by
  rw [write_eq, find?_mapFiles, find?, same]
  cases t.locate? path with
  | none => rfl
  | some l => simp

theorem find?_write_of_ne {path other : List Char} (content : List UInt8)
    (apart : t.locate? other ≠ t.locate? path) :
    (t.write path content).find? other = t.find? other := by
  have places : (t.write path content).locate? other = t.locate? other := by
    rw [write_eq, locate?_mapFiles]
  rw [find?, find?, places]
  cases place : t.locate? other with
  | none => rfl
  | some l =>
    rw [place] at apart
    rw [Option.bind_some, Option.bind_some, write]
    cases target : t.locate? path with
    | none => rfl
    | some k =>
      have ne : l ≠ k := fun same => apart (by rw [same, target])
      exact (get?_replaceAt t k l content).trans (if_neg ne)

end Tree

namespace Glob

theorem namesIn_mapFiles (path : List Char) : namesIn (t.mapFiles f) path = namesIn t path := by
  unfold namesIn
  rw [Tree.locate?_mapFiles]
  cases t.locate? path with
  | none => rfl
  | some l => simp [Tree.children_mapFiles, Function.comp_def]

theorem descendants_mapFiles (n : Nat) (path : List Char) :
    descendants (t.mapFiles f) n path = descendants t n path := by
  induction n generalizing path with
  | zero => rfl
  | succ n ih => simp only [descendants, namesIn_mapFiles, ih]

theorem PathPattern.expand_mapFiles (p : PathPattern) (steps : List Step) (path : List Char) :
    p.expand (t.mapFiles f) steps path = p.expand t steps path := by
  have directory : (t.mapFiles f).isDirectory = t.isDirectory :=
    funext (Tree.isDirectory_mapFiles t f)
  induction steps generalizing path with
  | nil => simp only [expand, Tree.depth_mapFiles, descendants_mapFiles, directory]
  | cons s ss ih =>
    simp only [expand, Tree.depth_mapFiles, descendants_mapFiles, directory, namesIn_mapFiles,
      Tree.contains_mapFiles, ih]

theorem expandOperand_mapFiles (operand : List Char) :
    expandOperand (t.mapFiles f) operand = expandOperand t operand := by
  simp only [expandOperand, Tree.contains_mapFiles, PathPattern.expand_mapFiles]

end Glob

namespace Selection

theorem walk_mapFiles (excluded : List (List Glob.Part)) (n : Nat) (path : List Char) (l : Location)
    (names : List Name) :
    walk (t.mapFiles f) excluded n path l names = walk t excluded n path l names := by
  induction n generalizing path l names with
  | zero => rfl
  | succ n ih =>
    rw [walk, walk, Tree.children_mapFiles, List.flatMap_map]
    congr 1
    funext ⟨name, e⟩
    cases e with
    | file content => rfl
    | directory => simp only [Entry.mapContent, ih]

theorem ofPath_mapFiles (excluded : List (List Glob.Part)) (path : List Char) :
    ofPath (t.mapFiles f) excluded path = ofPath t excluded path := by
  unfold ofPath
  rw [Tree.locate?_mapFiles]
  cases t.locate? path with
  | none => rfl
  | some l =>
    simp only [Tree.get?_mapFiles, Tree.depth_mapFiles, walk_mapFiles]
    cases t.get? l with
    | none => rfl
    | some e => cases e <;> rfl

theorem paths_mapFiles (m : Mode) (operands : List (List Char)) :
    paths (t.mapFiles f) m operands = paths t m operands := by
  have expand : Glob.expandOperand (t.mapFiles f) = Glob.expandOperand t :=
    funext (Glob.expandOperand_mapFiles t f)
  have ofPath : ofPath (t.mapFiles f) = ofPath t := by
    funext excluded path
    exact ofPath_mapFiles t f excluded path
  rw [paths, paths, expand, ofPath]

end Selection

namespace Config

theorem searchList_mapFiles (operands : List (List Char)) :
    searchList (t.mapFiles f) operands = searchList t operands := by
  simp only [searchList, directoryOf, Tree.isDirectory_mapFiles]

theorem discover_mapFiles (operands : List (List Char)) :
    discover (t.mapFiles f) operands = discover t operands := by
  have file : (t.mapFiles f).isFile = t.isFile := funext (Tree.isFile_mapFiles t f)
  rw [discover, discover, searchList_mapFiles, file]

end Config
end TidySql
