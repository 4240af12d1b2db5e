import TidySql.Proofs.Growth

/-! Drafts.
A draft is a text in which the widths of margins and the letter case of keywords are open.
Trimming takes a margin whole or not at all, and never reaches into a keyword. So a draft can
be trimmed before the options are known. -/
namespace TidySql
open Text

/-- A part of a draft: a character, a keyword in upper case, or the margin of a line. -/
inductive Mark where
  | char (c : Char)
  | keyword (word : List Char)
  | margin (level : Nat)
  deriving DecidableEq, Repr

namespace Mark

def level : Mark → Nat
  | margin n => n
  | char _ | keyword _ => 0

def text (k : KeywordCase) : Mark → List Char
  | char c => [c]
  | keyword word => k.apply word
  | margin _ => []

def keyword? : Mark → Option (List Char)
  | keyword word => some word
  | char _ | margin _ => none

def write (o : Options) (m : Mark) : List Char :=
  List.replicate (o.width * m.level) ' ' ++ m.text o.keywordCase

/-- All that the mark is written as passes a test of blanks, which a space always passes. No end
of a keyword passes one. -/
def passes (test : Char → Bool) : Mark → Bool
  | char c => test c
  | keyword _ => false
  | margin _ => true

end Mark

abbrev Draft := List Mark

namespace Draft

def keywords (d : Draft) : List (List Char) := d.filterMap Mark.keyword?

def Known (d : Draft) : Prop := ∀ w ∈ d.keywords, Keyword.isKnown w = true

def writeOut (o : Options) (d : Draft) : List Char := d.flatMap (Mark.write o)

def ofText (cs : List Char) : Draft := cs.map Mark.char

def trimPadding (d : Draft) : Draft := dropEndWhile (Mark.passes Buffer.isPadding) d

def breakLine (d : Draft) : Draft :=
  if d.trimPadding = [] ∨ d.trimPadding.getLast? = some (.char '\n') then d.trimPadding
  else d.trimPadding ++ [.char '\n']

/-- What is put before a text: the margin of a fresh line, else the gap. -/
def lead (fresh : Bool) (level : Nat) (gap : Draft) : Draft :=
  if fresh then [.margin level] else gap

def write (d : Draft) (fresh : Bool) (level : Nat) (marks : Draft) : Draft :=
  d ++ lead fresh level [] ++ marks ++ [.char ' ']

def attach (d marks : Draft) : Draft := d.trimPadding ++ marks

def trim (d : Draft) : Draft :=
  dropEndWhile (Mark.passes isBlank) (d.dropWhile (Mark.passes isBlank))

end Draft

theorem Keyword.ends_solid : ∀ w ∈ Keyword.clauses ++ Keyword.reserved,
    ∀ k ∈ [KeywordCase.upper, KeywordCase.lower],
      ((k.apply w).head?.any fun c => !isBlank c) = true ∧
        ((k.apply w).getLast?.any fun c => !isBlank c) = true := by decide

/-- A known keyword begins and ends with characters that are not blank. -/
theorem Keyword.solid_apply {w : List Char} (known : isKnown w = true) (k : KeywordCase) :
    (∃ c ∈ (k.apply w).head?, isBlank c = false) ∧
      ∃ c ∈ (k.apply w).getLast?, isBlank c = false := by
  have listed : w ∈ clauses ++ reserved := by
    rw [isKnown, Bool.or_eq_true] at known
    exact List.mem_append.mpr (known.imp List.contains_iff_mem.mp List.contains_iff_mem.mp)
  have both : k ∈ [KeywordCase.upper, KeywordCase.lower] := by cases k <;> decide
  obtain ⟨first, last⟩ := ends_solid w listed k both
  simpa [Option.any_eq_true] using And.intro first last

namespace Mark

variable {test : Char → Bool} (o : Options)

theorem passes_write (space : test ' ' = true) {m : Mark} (passes : m.passes test = true) :
    ∀ c ∈ m.write o, test c = true := by
  intro c member
  cases m with
  | char d =>
    obtain rfl : c = d := by simpa [write, level, text] using member
    exact passes
  | keyword w => cases passes
  | margin n =>
    have blank : c ∈ List.replicate (o.width * n) ' ' := by simpa [write, level, text] using member
    rw [List.eq_of_mem_replicate blank]
    exact space

theorem stops_write (blank : ∀ c, test c = true → isBlank c = true) {m : Mark}
    (known : ∀ w ∈ m.keyword?, Keyword.isKnown w = true) (stops : m.passes test = false) :
    (∃ c ∈ (m.write o).head?, test c = false) ∧ ∃ c ∈ (m.write o).getLast?, test c = false := by
  cases m with
  | char d =>
    have plain : test d = false := stops
    simpa [write, level, text] using plain
  | margin n => cases stops
  | keyword w =>
    have solid : ∀ c, isBlank c = false → test c = false := by
      intro c solid
      rw [Bool.eq_false_iff]
      intro passes
      exact Bool.false_ne_true (solid.symm.trans (blank c passes))
    obtain ⟨⟨c, first, c_solid⟩, d, last, d_solid⟩ :=
      Keyword.solid_apply (known w rfl) o.keywordCase
    have whole : (keyword w).write o = o.keywordCase.apply w := by simp [write, level, text]
    rw [whole]
    exact ⟨⟨c, first, solid c c_solid⟩, d, last, solid d d_solid⟩

/-- A line feed is a mark of its own. -/
theorem write_ends_iff {m : Mark} (known : ∀ w ∈ m.keyword?, Keyword.isKnown w = true)
    (stops : m.passes test = false) : (m.write o).getLast? = some '\n' ↔ m = .char '\n' := by
  cases m with
  | char d => simp [write, level, text]
  | margin n => cases stops
  | keyword w =>
    obtain ⟨-, c, last, solid⟩ := Keyword.solid_apply (known w rfl) o.keywordCase
    have whole : (keyword w).write o = o.keywordCase.apply w := by simp [write, level, text]
    rw [whole, Option.mem_def.mp last]
    simp only [Option.some.injEq, reduceCtorEq, iff_false]
    rintro rfl
    exact absurd solid (by decide)

end Mark

namespace Draft

variable {d : Draft} (o : Options)

theorem writeOut_append (d e : Draft) : (d ++ e).writeOut o = d.writeOut o ++ e.writeOut o :=
  List.flatMap_append

theorem writeOut_ofText (cs : List Char) : (ofText cs).writeOut o = cs := by
  simp [writeOut, ofText, List.flatMap_map, Mark.write, Mark.level, Mark.text]

theorem writeOut_keyword (word : List Char) :
    writeOut o [.keyword word] = o.keywordCase.apply word := by
  simp [writeOut, Mark.write, Mark.level, Mark.text]

theorem writeOut_lead (fresh : Bool) (level : Nat) (gap : List Char) :
    (lead fresh level (ofText gap)).writeOut o = if fresh then o.margin level else gap := by
  cases fresh with
  | true => simp [lead, writeOut, Mark.write, Mark.level, Mark.text, Options.margin, Nat.mul_comm]
  | false => exact writeOut_ofText o gap

theorem keywords_append (d e : Draft) : (d ++ e).keywords = d.keywords ++ e.keywords :=
  List.filterMap_append

theorem keywords_ofText (cs : List Char) : (ofText cs).keywords = [] := by
  simp [keywords, ofText, List.filterMap_map, Function.comp_def, Mark.keyword?]

theorem keywords_lead (fresh : Bool) (level : Nat) (gap : List Char) :
    (lead fresh level (ofText gap)).keywords = [] := by
  cases fresh with
  | true => rfl
  | false => exact keywords_ofText gap

theorem keyword?_of_passes {test : Char → Bool} {m : Mark} (passes : m.passes test = true) :
    m.keyword? = none := by
  cases m with
  | keyword => cases passes
  | char | margin => rfl

theorem keywords_dropWhile (test : Char → Bool) (d : Draft) :
    keywords (d.dropWhile (Mark.passes test)) = d.keywords := by
  induction d with
  | nil => rfl
  | cons m d ih =>
    by_cases passes : m.passes test = true
    · rw [List.dropWhile_cons_of_pos passes, ih]
      simp [keywords, keyword?_of_passes passes]
    · rw [List.dropWhile_cons_of_neg passes]

theorem keywords_dropEndWhile (test : Char → Bool) (d : Draft) :
    keywords (dropEndWhile (Mark.passes test) d) = d.keywords := by
  have kept := keywords_dropWhile test d.reverse
  simp only [keywords, List.filterMap_reverse] at kept
  rw [dropEndWhile, keywords, List.filterMap_reverse, kept, List.reverse_reverse]
  rfl

theorem keywords_breakLine (d : Draft) : d.breakLine.keywords = d.keywords := by
  unfold breakLine
  split
  · exact keywords_dropEndWhile _ d
  · rw [keywords_append, trimPadding, keywords_dropEndWhile]
    exact List.append_nil _

theorem keywords_write (d : Draft) (fresh : Bool) (level : Nat) (marks : Draft) :
    (d.write fresh level marks).keywords = d.keywords ++ marks.keywords := by
  have none : keywords (lead fresh level []) = [] := keywords_lead fresh level []
  rw [write, keywords_append, keywords_append, keywords_append, none, List.append_nil]
  exact List.append_nil _

theorem keywords_attach (d marks : Draft) :
    (d.attach marks).keywords = d.keywords ++ marks.keywords := by
  rw [attach, keywords_append, trimPadding, keywords_dropEndWhile]

theorem Known.of_mem (known : d.Known) {m : Mark} (member : m ∈ d) :
    ∀ w ∈ m.keyword?, Keyword.isKnown w = true :=
  fun w own => known w (List.mem_filterMap.mpr ⟨m, member, own⟩)

theorem writeOut_trimPadding (known : d.Known) :
    dropEndWhile Buffer.isPadding (d.writeOut o) = d.trimPadding.writeOut o :=
  dropEndWhile_flatMap (fun _ _ passes => Mark.passes_write o (by decide) passes)
    fun _ member stops =>
      (Mark.stops_write o Layout.State.isBlank_of_isPadding (known.of_mem member) stops).2

theorem writeOut_trim (known : d.Known) : Text.trim (d.writeOut o) = d.trim.writeOut o := by
  have blanks : ∀ c, isBlank c = true → isBlank c = true := fun _ blank => blank
  have kept : Known (d.dropWhile (Mark.passes isBlank)) := by
    rw [Known, keywords_dropWhile]
    exact known
  have start : trimStart (d.writeOut o) = writeOut o (d.dropWhile (Mark.passes isBlank)) :=
    dropWhile_flatMap (fun _ _ passes => Mark.passes_write o (by decide) passes)
      fun _ member stops => (Mark.stops_write o blanks (known.of_mem member) stops).1
  rw [Text.trim, start]
  exact dropEndWhile_flatMap (fun _ _ passes => Mark.passes_write o (by decide) passes)
    fun _ member stops => (Mark.stops_write o blanks (kept.of_mem member) stops).2

end Draft

end TidySql
