import TidySql.Diff

/-! A difference can be read back.
Each of its lines is one line of the texts with a sign before it, and a line that has no end gets
one. A line that ends with a carriage return alone stays one, because a sign comes after it. So the
signs tell which lines spell the old text and which the new one. -/
namespace TidySql.Diff
open Text

/-! ### Lines -/

theorem ended_cons {c : Char} (feed : c ≠ '\n') (carriage : c ≠ '\r') (line : List Char) :
    ended (c :: line) = c :: ended line := by
  have same : isEnded (c :: line) = isEnded line := by
    cases line with
    | nil => simp [isEnded, feed, carriage]
    | cons d line => rfl
  rw [ended, ended, same]
  split <;> rfl

/-- A line with its end is cut off again, unless a line feed completes its carriage return. -/
theorem cutLine_ended (cs : List Char) {rest : List Char} (apart : rest.head? ≠ some '\n') :
    cutLine (ended (cutLine cs).1 ++ rest) = (ended (cutLine cs).1, rest) := by
  fun_induction cutLine cs with
  | case1 => rfl
  | case2 => rfl
  | case3 => rfl
  | case4 cs _ lone =>
    have single : ended ['\r'] = ['\r'] := rfl
    rw [single, List.singleton_append, cutLine, if_neg (by decide), if_pos rfl, if_neg apart]
  | case5 c cs feed carriage s ih =>
    rw [ended_cons feed carriage, List.cons_append, cutLine, if_neg feed, if_neg carriage, ih]

theorem isEnded_cutLine (cs : List Char) (more : (cutLine cs).2 ≠ []) :
    isEnded (cutLine cs).1 = true := by
  fun_induction cutLine cs with
  | case1 => exact absurd rfl more
  | case2 | case3 | case4 => rfl
  | case5 c cs feed carriage s ih =>
    have tail := ih more
    cases first : s.1 with
    | nil =>
      rw [show (cutLine cs).1 = [] from first] at tail
      cases tail
    | cons d line =>
      rw [show (cutLine cs).1 = d :: line from first] at tail
      exact tail

theorem exists_of_mem_lines {text line : List Char} (member : line ∈ lines text) :
    ∃ cs, line = (cutLine cs).1 := by
  fun_induction lines text with
  | case1 => cases member
  | case2 c cs ih =>
    rcases List.mem_cons.mp member with rfl | later
    · exact ⟨c :: cs, rfl⟩
    · exact ih later

/-- A text as it is printed line by line: with an end of its last line, if it has a last line. -/
def completed (text : List Char) : List Char :=
  if text = [] ∨ isEnded text = true then text else text ++ ['\n']

theorem completed_append (a : List Char) {b : List Char} (nonempty : b ≠ []) :
    completed (a ++ b) = a ++ completed b := by
  have last : isEnded (a ++ b) = isEnded b := by
    rw [isEnded, isEnded, List.getLast?_append, Option.or_of_isSome (by simpa using nonempty)]
  simp only [completed, last, List.append_eq_nil_iff, nonempty, and_false, false_or]
  split
  · rfl
  · exact List.append_assoc a b ['\n']

theorem flatMap_ended_lines (text : List Char) : (lines text).flatMap ended = completed text := by
  fun_induction lines text with
  | case1 => rfl
  | case2 c cs ih =>
    have whole := cutLine_append (c :: cs)
    rw [List.flatMap_cons, ih]
    by_cases last : (cutLine (c :: cs)).2 = []
    · rw [last, List.append_nil] at whole
      rw [last, whole, completed, completed, ended]
      simp
    · rw [ended, if_pos (isEnded_cutLine _ last), ← completed_append _ last, whole]

theorem cutLine_append_of_more {cs : List Char}
    (more : (cutLine cs).2 ≠ [] ∨ cs.getLast? = some '\n') (b : List Char) :
    cutLine (cs ++ b) = ((cutLine cs).1, (cutLine cs).2 ++ b) := by
  fun_induction cutLine cs with
  | case1 => simp at more
  | case2 cs => rfl
  | case3 cs head =>
    obtain ⟨rest, rfl⟩ := List.head?_eq_some_iff.mp head
    rfl
  | case4 cs lone =>
    have kept : (cs ++ b).head? ≠ some '\n' := by
      cases cs with
      | nil => simp at more
      | cons d cs => exact lone
    rw [List.cons_append, cutLine, if_neg (by decide), if_pos rfl, if_neg kept]
  | case5 c cs feed carriage s ih =>
    have later : s.2 ≠ [] ∨ cs.getLast? = some '\n' := by
      refine more.imp_right fun last => ?_
      cases cs with
      | nil => simp [feed] at last
      | cons d cs => simpa [List.getLast?_cons] using last
    rw [List.cons_append, cutLine, if_neg feed, if_neg carriage, ih later]

/-- After a line feed the lines begin anew. -/
theorem lines_append_of_feed (a : List Char) (feed : a.getLast? = some '\n') (b : List Char) :
    lines (a ++ b) = lines a ++ lines b := by
  fun_induction lines a with
  | case1 => cases feed
  | case2 c cs ih =>
    have whole := cutLine_append (c :: cs)
    have cut := cutLine_append_of_more (.inr feed) b
    rw [List.cons_append, lines, ← List.cons_append, cut, List.cons_append]
    congr 1
    by_cases last : (cutLine (c :: cs)).2 = []
    · rw [last, lines]
      rfl
    · rw [← whole, List.getLast?_append, Option.or_of_isSome (by simpa using last)] at feed
      exact ih feed

/-! ### Signed lines -/

def IsSign (c : Char) : Prop := c = '-' ∨ c = '+' ∨ c = ' '

theorem IsSign.ne_lineEnd {c : Char} (sign : IsSign c) : c ≠ '\n' ∧ c ≠ '\r' := by
  rcases sign with rfl | rfl | rfl <;> decide

/-- The lines with one of the signs. -/
def linesOf (signs : List Char) (changes : List (Char × List Char)) : List (List Char) :=
  (changes.filter fun c => signs.contains c.1).map Prod.snd

/-- The signed lines lead from one text to the other: the deleted and the kept ones are the lines of
the old text, and the inserted and the kept ones those of the new text. -/
structure Leads (changes : List (Char × List Char)) (old new : List Char) : Prop where
  sign : ∀ c ∈ changes, IsSign c.1
  old : linesOf ['-', ' '] changes = lines old
  new : linesOf ['+', ' '] changes = lines new

@[simp] theorem linesOf_append (signs : List Char) (cs ds : List (Char × List Char)) :
    linesOf signs (cs ++ ds) = linesOf signs cs ++ linesOf signs ds := by
  simp [linesOf]

@[simp] theorem linesOf_map (signs : List Char) (sign : Char) (ls : List (List Char)) :
    linesOf signs (ls.map (sign, ·)) = if sign ∈ signs then ls else [] := by
  by_cases listed : sign ∈ signs <;>
    simp [linesOf, listed, List.filter_map, Function.comp_def]

theorem old_signedFrom (deleted inserted : List (List Char)) (s : Script (List Char)) :
    linesOf ['-', ' '] (signedFrom deleted inserted s) = deleted ++ s.old := by
  fun_induction signedFrom deleted inserted s with
  | case1 => simp
  | case2 deleted inserted xs s ih => simp [ih, Piece.old]
  | case3 deleted inserted xs s ih => simp [ih, Piece.old]
  | case4 deleted inserted xs s ih => simp [ih, Piece.old]

theorem new_signedFrom (deleted inserted : List (List Char)) (s : Script (List Char)) :
    linesOf ['+', ' '] (signedFrom deleted inserted s) = inserted ++ s.new := by
  fun_induction signedFrom deleted inserted s with
  | case1 => simp
  | case2 deleted inserted xs s ih => simp [ih, Piece.new]
  | case3 deleted inserted xs s ih => simp [ih, Piece.new]
  | case4 deleted inserted xs s ih => simp [ih, Piece.new]

theorem isSign_signedFrom (deleted inserted : List (List Char)) (s : Script (List Char)) :
    ∀ c ∈ signedFrom deleted inserted s, IsSign c.1 := by
  have marked {sign : Char} (known : IsSign sign) (ls : List (List Char)) :
      ∀ c ∈ ls.map (sign, ·), IsSign c.1 := List.forall_mem_map.mpr fun _ _ => known
  have minus : IsSign '-' := .inl rfl
  have plus : IsSign '+' := .inr (.inl rfl)
  have space : IsSign ' ' := .inr (.inr rfl)
  fun_induction signedFrom deleted inserted s with
  | case1 deleted inserted =>
    exact List.forall_mem_append.mpr ⟨marked minus deleted, marked plus inserted⟩
  | case2 deleted inserted xs s ih =>
    simp only [List.forall_mem_append]
    exact ⟨⟨⟨marked minus deleted, marked plus inserted⟩, marked space xs⟩, ih⟩
  | case3 deleted inserted xs s ih => exact ih
  | case4 deleted inserted xs s ih => exact ih

/-- The difference that is shown leads from the old text to the new one. -/
theorem leads_signedLines (old new : List Char) : Leads (signedLines old new) old new where
  sign := isSign_signedFrom _ _ _
  old := by rw [signedLines, old_signedFrom, old_compact, old_shortest, List.nil_append]
  new := by rw [signedLines, new_signedFrom, new_compact, new_shortest, List.nil_append]

theorem Leads.exists_cutLine {changes : List (Char × List Char)} {old new : List Char}
    (leads : Leads changes old new) : ∀ c ∈ changes, ∃ cs, c.2 = (cutLine cs).1 := by
  intro c member
  have held (signs : List Char) (listed : c.1 ∈ signs) : c.2 ∈ linesOf signs changes :=
    List.mem_map_of_mem (List.mem_filter.mpr ⟨member, List.contains_iff_mem.mpr listed⟩)
  have sign := leads.sign c member
  by_cases inserted : c.1 = '+'
  · have line : c.2 ∈ lines new := leads.new ▸ held ['+', ' '] (by simp [inserted])
    exact exists_of_mem_lines line
  · have line : c.2 ∈ lines old :=
      leads.old ▸ held ['-', ' '] (by simpa [IsSign, inserted] using sign)
    exact exists_of_mem_lines line

/-! ### The printed text -/

def header (path : List Char) : List Char :=
  "--- ".toList ++ path ++ "\n+++ ".toList ++ path ++ ['\n']

/-- The signed lines as they are printed. -/
def written (changes : List (Char × List Char)) : List Char :=
  changes.flatMap fun (sign, line) => sign :: ended line

theorem render_eq (path old new : List Char) :
    render path old new = header path ++ written (signedLines old new) := rfl

theorem lines_written {changes : List (Char × List Char)} (sign : ∀ c ∈ changes, IsSign c.1)
    (single : ∀ c ∈ changes, ∃ cs, c.2 = (cutLine cs).1) :
    lines (written changes) = changes.map fun c => c.1 :: ended c.2 := by
  induction changes with
  | nil => simp [written, lines]
  | cons c changes ih =>
    obtain ⟨first, signs⟩ := List.forall_mem_cons.mp sign
    obtain ⟨⟨cs, line⟩, others⟩ := List.forall_mem_cons.mp single
    -- A sign comes next, or nothing, so no carriage return is completed.
    have apart : (written changes).head? ≠ some '\n' := by
      cases changes with
      | nil => simp [written]
      | cons d changes =>
        intro feed
        exact (List.forall_mem_cons.mp signs).1.ne_lineEnd.1 (Option.some.inj feed)
    have cut : cutLine (c.1 :: (ended c.2 ++ written changes)) =
        (c.1 :: ended c.2, written changes) := by
      rw [cutLine, if_neg first.ne_lineEnd.1, if_neg first.ne_lineEnd.2, line,
        cutLine_ended cs apart]
    have whole : written (c :: changes) = c.1 :: (ended c.2 ++ written changes) := rfl
    rw [whole, lines, cut, ih signs others, List.map_cons]

/-- What the lines with one of the signs spell once the signs are taken away. -/
def side (signs text : List Char) : List Char :=
  ((lines text).filter fun line => line.head?.any signs.contains).flatMap List.tail

/-- The lines of the text begin with signs, and those of either text spell it, with an end of its
last line. -/
structure ReadsBack (body old new : List Char) : Prop where
  signed : ∀ line ∈ lines body, ∃ sign rest, line = sign :: rest ∧ IsSign sign
  old : side ['-', ' '] body = completed old
  new : side ['+', ' '] body = completed new

theorem Leads.side_written {changes : List (Char × List Char)} {old new : List Char}
    (leads : Leads changes old new) (signs : List Char) :
    side signs (written changes) = (linesOf signs changes).flatMap ended := by
  rw [side, lines_written leads.sign leads.exists_cutLine, linesOf, List.filter_map,
    List.flatMap_map, List.flatMap_map]
  rfl

theorem Leads.readsBack {changes : List (Char × List Char)} {old new : List Char}
    (leads : Leads changes old new) : ReadsBack (written changes) old new where
  signed := by
    rw [lines_written leads.sign leads.exists_cutLine]
    intro line member
    obtain ⟨c, inside, rfl⟩ := List.mem_map.mp member
    exact ⟨c.1, _, rfl, leads.sign c inside⟩
  old := by rw [leads.side_written, leads.old, flatMap_ended_lines]
  new := by rw [leads.side_written, leads.new, flatMap_ended_lines]

/-- A difference is printed after a header, and its lines give back both texts. This holds of any
signed lines that lead from the one text to the other. -/
theorem render_reads_back (path old new : List Char) :
    (∃ body, render path old new = header path ++ body ∧
      lines (render path old new) = lines (header path) ++ lines body ∧
      ReadsBack body old new) ∧
    ∀ changes, Leads changes old new → ReadsBack (written changes) old new := by
  refine ⟨⟨written (signedLines old new), rfl, ?_, (leads_signedLines old new).readsBack⟩, ?_⟩
  · rw [render_eq]
    exact lines_append_of_feed (header path) List.getLast?_concat _
  · intro changes leads
    exact leads.readsBack

example : render "a".toList "b\rc".toList "B\rc\n".toList =
    "--- a\n+++ a\n-b\r-c\n+B\r+c\n".toList := by decide +kernel

end TidySql.Diff
