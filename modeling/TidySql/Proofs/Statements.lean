import TidySql.Proofs.Comparison
import TidySql.Proofs.OpenParens
import TidySql.Proofs.Separation

/-! Statements one after another.
A semicolon ends its lexeme whatever follows, and layout has nothing left of a statement
after it if every parenthesis is closed. So the statements of a script are formatted one by
one, and a line break stands between them. -/
namespace TidySql
open Text Lexer

theorem Lexer.Reads.of_punctuation {l : Lexeme} {rest : List Char} (h : Reads l rest)
    (mark : l.kind.isPunctuation = true) (rest' : List Char) : Reads l rest' := by
  cases h with
  | punctuation found => exact .punctuation found
  | _ => cases mark

/-- What follows a text is read apart from it if its last lexeme ends there. -/
theorem lexemes_append {a : List Char} (b : List Char)
    (ends : ∀ l ∈ (lexemes a).getLast?, Reads l b) : lexemes (a ++ b) = lexemes a ++ lexemes b := by
  induction a using text_induction with
  | nil => simp [lexemes, pieces]
  | blank c rest blank ih =>
    rw [lexemes_of_isBlank blank] at ends ⊢
    rw [List.cons_append, lexemes_of_isBlank blank, ih ends]
  | lexeme l rest read ih =>
    rw [lexemes_of_reads read] at ends
    have tail : ∀ m ∈ (lexemes rest).getLast?, Reads m b := by
      intro m last
      refine ends m ?_
      rw [List.getLast?_cons, Option.mem_def.mp last]
      rfl
    have after : Reads l (rest ++ b) := by
      cases rest with
      | nil => exact ends l (by simp [lexemes, pieces])
      | cons e r => exact read.of_same_head (r ++ b)
    rw [List.append_assoc, lexemes_of_reads after, lexemes_of_reads read, ih tail, List.cons_append]

namespace Phrase

/-- Only words make compounds, so the phrases after any other lexeme are told apart. -/
theorem group_append {as : List Lexeme} (bs : List Lexeme)
    (ends : ∀ l ∈ as.getLast?, l.kind ≠ .word) : group (as ++ bs) = group as ++ group bs := by
  apply group_append_of_apart
  intro a last b _
  simp [compoundOf?, ends a last]

theorem group_concat (as : List Lexeme) {b : Lexeme} (other : b.kind ≠ .word) :
    group (as ++ [b]) = group as ++ [single b] := by
  fun_induction group as with
  | case1 => rfl
  | case2 a => simp [group, compoundOf?, other]
  | case3 a a' ls c pair ih => simp [group, pair, ih]
  | case4 a a' ls pair ih => simpa [group, pair] using ih

theorem group_ne_nil {ls : List Lexeme} (nonempty : ls ≠ []) : group ls ≠ [] := by
  intro none
  have texts := flatMap_group .upper ls
  rw [none, List.flatMap_nil] at texts
  exact nonempty (List.map_eq_nil_iff.mp texts.symm)

end Phrase

namespace Layout

theorem spell_append (o : Options) (g : Gap) (s : State) (ps : List Phrase) (p : Phrase)
    (qs : List Phrase) : spell o g s (ps ++ p :: qs) = spell o g s (ps ++ [p]) ++
      spell o ((ps.foldl (State.step o) s).trail p) ((ps ++ [p]).foldl (State.step o) s) qs := by
  induction ps generalizing g s with
  | nil => simp [spell]
  | cons q ps ih =>
    simp only [List.cons_append, spell, List.foldl_cons, List.append_assoc]
    rw [ih]

theorem trail_semicolon {s : State} {l : Lexeme} (kind : l.kind = .semicolon) :
    s.trail (.single l) = .line := by
  simp [State.trail, kind]

/-- On a new line with nothing left open, phrases are spelled as at the start. -/
theorem spell_line (o : Options) {s : State} (settled : s.context = {}) {q : Phrase}
    {qs : List Phrase} : spell o .line s (q :: qs) = '\n' :: spell o .start {} (q :: qs) := by
  rw [spell_congr o .line (t := {}) settled, spell, spell]
  rfl

theorem context_foldl (o : Options) (s : State) (ps : List Phrase) :
    (ps.foldl (State.step o) s).context = ps.foldl Context.step s.context := by
  induction ps generalizing s with
  | nil => rfl
  | cons p ps ih => rw [List.foldl_cons, List.foldl_cons, ih, State.context_step]

theorem foldl_context_eq_after (ps : List Phrase) :
    ps.foldl Context.step {} = Context.after ps.reverse := by
  rw [Context.after, List.foldr_reverse]

/-- Closed parentheses leave none open. -/
theorem parens_foldl_group {ls : List Lexeme} (closed : ParensClosed (ls.map Lexeme.kind)) :
    ((Phrase.group ls).foldl Context.step {}).parens = [] := by
  obtain ⟨-, places, opened, parens⟩ := Context.Follows.nil.foldl ls
  rw [List.nil_append] at opened
  rw [parens, opened.eq_nil closed, List.map_nil]

/-- Nothing is left of lexemes that end with a semicolon and close their parentheses. -/
theorem context_settled (o : Options) {ls : List Lexeme} {l : Lexeme} (ends : l.kind = .semicolon)
    (closed : ParensClosed ((ls ++ [l]).map Lexeme.kind)) :
    (List.foldl (State.step o) {} (Phrase.group ls ++ [Phrase.single l])).context = {} := by
  have last := Phrase.group_concat ls (b := l) (by simp [ends])
  have parens := parens_foldl_group closed
  have indent := Context.indent_after (Phrase.group ls ++ [Phrase.single l]).reverse
  rw [← foldl_context_eq_after] at indent
  rw [last] at parens
  rw [parens] at indent
  rw [context_foldl]
  refine Context.ext indent ?_ ?_ parens
  · rw [List.foldl_append]
    simp [Context.step, Phrase.isKind, ends]
  · rw [List.foldl_append]
    simp [Context.step, Phrase.lastWord, ends]

end Layout

theorem allBlank_of_lexemes {source : List Char} (none : lexemes source = []) :
    allBlank source = true := by
  induction source using text_induction with
  | nil => rfl
  | blank c rest blank ih =>
    rw [lexemes_of_isBlank blank] at none
    rw [allBlank, List.all_cons, blank, Bool.true_and]
    exact ih none
  | lexeme l rest read ih =>
    rw [lexemes_of_reads read] at none
    cases none

/-- A text of whole statements: a semicolon is its last token, and every parenthesis that it
opens it closes. -/
structure Ended (source : List Char) : Prop where
  semicolon : ((tokenize source).map Token.toLexeme).getLast?.map Lexeme.kind = some .semicolon
  closed : ParensClosed ((tokenize source).map (fun t => t.kind))

theorem Ended.exists_semicolon {source : List Char} (ended : Ended source) :
    ∃ ls l, lexemes source = ls ++ [l] ∧ l.kind = .semicolon ∧
      ParensClosed ((ls ++ [l]).map Lexeme.kind) := by
  have last := ended.semicolon
  have closed := ended.closed
  rw [map_toLexeme_tokenize, Option.map_eq_some_iff] at last
  obtain ⟨l, final, kind⟩ := last
  obtain ⟨ls, whole⟩ := List.getLast?_eq_some_iff.mp final
  refine ⟨ls, l, whole, kind, ?_⟩
  rw [← whole, ← map_toLexeme_tokenize, List.map_map]
  exact closed

theorem format_append_of_ended (o : Options) {a b : List Char} (ended : Ended a)
    (more : allBlank b = false) : format o (a ++ b) = format o a ++ '\n' :: format o b := by
  obtain ⟨ls, l, whole, kind, closed⟩ := ended.exists_semicolon
  have other : l.kind ≠ .word := by simp [kind]
  have ends : ∀ m ∈ (ls ++ [l]).getLast?, m = l := by simp
  have read : ∀ m ∈ (lexemes a).getLast?, Reads m b := by
    rw [whole]
    intro m final
    obtain rfl := ends m final
    have alone := (scans_lexemes a).reads_of_mem m (by simp [whole])
    exact alone.of_punctuation (by simp [kind, Kind.isPunctuation]) b
  have nonempty : lexemes b ≠ [] := by
    intro none
    rw [allBlank_of_lexemes none] at more
    cases more
  obtain ⟨q, qs, next⟩ := List.exists_cons_of_ne_nil (Phrase.group_ne_nil nonempty)
  have settled := Layout.context_settled o kind closed
  calc format o (a ++ b)
      = Layout.spell o .start {} (Phrase.group (ls ++ [l] ++ lexemes b)) := by
        rw [format_eq_spell_group, lexemes_append b read, whole]
    _ = Layout.spell o .start {} (Phrase.group ls ++ .single l :: q :: qs) := by
        rw [Phrase.group_append _ (fun m final => ends m final ▸ other),
          Phrase.group_concat ls other, next, List.append_assoc, List.singleton_append]
    _ = Layout.spell o .start {} (Phrase.group ls ++ [.single l]) ++
          Layout.spell o .line (List.foldl (Layout.State.step o) {}
            (Phrase.group ls ++ [Phrase.single l])) (q :: qs) := by
        rw [Layout.spell_append, Layout.trail_semicolon kind]
    _ = format o a ++ '\n' :: format o b := by
        rw [Layout.spell_line o settled, ← next, ← Phrase.group_concat ls other, ← whole,
          ← format_eq_spell_group, ← format_eq_spell_group]

theorem format_flatten_append (o : Options) (ss : List (List Char)) {b : List Char}
    (ended : ∀ s ∈ ss, Ended s) (more : allBlank b = false) :
    format o (ss.flatten ++ b) = ['\n'].intercalate ((ss ++ [b]).map (format o)) := by
  induction ss with
  | nil => simp
  | cons s ss ih =>
    have tail := ih fun t member => ended t (List.mem_cons_of_mem s member)
    have rest : allBlank (ss.flatten ++ b) = false := by
      rw [allBlank] at more ⊢
      rw [List.all_append, more, Bool.and_false]
    obtain ⟨t, ts, next⟩ := List.exists_cons_of_ne_nil (l := (ss ++ [b]).map (format o)) (by simp)
    rw [List.flatten_cons, List.append_assoc,
      format_append_of_ended o (ended s List.mem_cons_self) rest, tail, List.cons_append,
      List.map_cons, next, List.intercalate_cons_cons]
    simp

theorem Ended.not_allBlank {source : List Char} (ended : Ended source) :
    allBlank source = false := by
  obtain ⟨ls, l, whole, -, -⟩ := ended.exists_semicolon
  rw [Bool.eq_false_iff]
  intro blank
  rw [lexemes_of_allBlank blank] at whole
  simp at whole

/-- Statements are formatted one by one, with a line break between them. -/
theorem format_script (o : Options) :
    (∀ a b, Ended a → allBlank b = false →
      format o (a ++ b) = format o a ++ '\n' :: format o b) ∧
    (∀ (ss : List (List Char)) (b : List Char), (∀ s ∈ ss, Ended s) → allBlank b = false →
      format o (ss.flatten ++ b) = ['\n'].intercalate ((ss ++ [b]).map (format o))) ∧
    ∀ ss : List (List Char), (∀ s ∈ ss, Ended s) →
      format o ss.flatten = ['\n'].intercalate (ss.map (format o)) := by
  refine ⟨fun a b => format_append_of_ended o, fun ss b => format_flatten_append o ss, ?_⟩
  intro ss ended
  rcases List.eq_nil_or_concat ss with rfl | ⟨init, last, rfl⟩
  · rfl
  · have final : Ended last := ended last (by simp)
    have inits : ∀ s ∈ init, Ended s := fun s member => ended s (by simp [member])
    rw [List.concat_eq_append, List.flatten_concat]
    exact format_flatten_append o init inits final.not_allBlank

/-- A call closes its parenthesis, and a parenthesis that closes nothing does no harm. -/
theorem format_script_call :
    (Ended "select f(a);".toList ∧ Ended " b);".toList ∧ allBlank " c".toList = false) ∧
      format {} ("select f(a);".toList ++ " c".toList) =
        format {} "select f(a);".toList ++ '\n' :: format {} " c".toList ∧
      format {} ["select f(a);".toList, " b);".toList].flatten = ['\n'].intercalate
        (["select f(a);".toList, " b);".toList].map (format {})) := by
  have call : Ended "select f(a);".toList := by
    have kinds : (tokenize "select f(a);".toList).map (fun t => t.kind) =
        [.word, .word, .openParen, .word, .closeParen, .semicolon] := by decide +kernel
    refine ⟨by decide +kernel, ?_⟩
    rw [kinds]
    simpa [ParensClosed] using ⟨[.word], [.semicolon], rfl, rfl⟩
  have stray : Ended " b);".toList := by
    have kinds : (tokenize " b);".toList).map (fun t => t.kind) =
        [.word, .closeParen, .semicolon] := by decide +kernel
    refine ⟨by decide +kernel, ?_⟩
    rw [kinds]
    simp [ParensClosed]
  have solid : allBlank " c".toList = false := by decide
  have both : ∀ s ∈ ["select f(a);".toList, " b);".toList], Ended s :=
    List.forall_mem_cons.mpr ⟨call, List.forall_mem_singleton.mpr stray⟩
  refine ⟨⟨call, stray, solid⟩, (format_script {}).1 _ _ call solid, ?_⟩
  exact (format_script {}).2.2 _ both

end TidySql
