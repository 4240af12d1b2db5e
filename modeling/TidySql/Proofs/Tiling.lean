import TidySql.Proofs.Grammar

/-! Where the tokens of a text stand in it.
The spans follow each other without overlap, each cuts the source between characters and
holds the text of its token, and what no span covers is blank. -/
namespace TidySql
open Text Lexer

/-- The text `t` stands in a source that begins at byte `n`, and takes the bytes from `start`
to `stop`. Both are boundaries of characters. -/
def StandsIn (n : Nat) (source t : List Char) (start stop : Nat) : Prop :=
  ∃ a b, source = a ++ t ++ b ∧ start = n + byteLength a ∧ stop = start + byteLength t

/-- The spans of the tokens tile the source: they leave out blanks and nothing else. -/
structure Tiles (source : List Char) (ts : List Token) : Prop where
  nonempty : ∀ t ∈ ts, t.start < t.stop
  inside : ∀ t ∈ ts, t.stop ≤ (encode source).length
  boundary : ∀ t ∈ ts, StandsIn 0 source t.text t.start t.stop
  slice : ∀ t ∈ ts, ((encode source).drop t.start).take (t.stop - t.start) = encode t.text
  ordered : ts.Pairwise fun t u => t.stop ≤ u.start
  outside : ∀ i < (encode source).length, (∀ t ∈ ts, i < t.start ∨ t.stop ≤ i) →
    ∃ c start stop, StandsIn 0 source [c] start stop ∧ start ≤ i ∧ i < stop ∧ isBlank c = true
  apart : ∀ before t u after, ts = before ++ t :: u :: after → t.kind = .word → u.kind = .word →
    ∃ c start stop, StandsIn 0 source [c] start stop ∧ t.stop ≤ start ∧ stop ≤ u.start ∧
      isBlank c = true

namespace StandsIn
variable {n : Nat} {source t a b : List Char} {start stop : Nat}

theorem here (n : Nat) (t b : List Char) : StandsIn n (t ++ b) t n (n + byteLength t) :=
  ⟨[], b, rfl, rfl, rfl⟩

theorem later (h : StandsIn (n + byteLength a) b t start stop) :
    StandsIn n (a ++ b) t start stop := by
  obtain ⟨before, after, rfl, first, last⟩ := h
  refine ⟨a ++ before, after, ?_, ?_, last⟩
  · rw [List.append_assoc a, List.append_assoc a]
  · rw [first, byteLength_append, Nat.add_assoc]

theorem le_start (h : StandsIn n source t start stop) : n ≤ start := by
  obtain ⟨before, after, -, first, -⟩ := h
  omega

theorem start_lt_stop (h : StandsIn n source t start stop) (nonempty : t ≠ []) : start < stop := by
  obtain ⟨c, cs, rfl⟩ := List.exists_cons_of_ne_nil nonempty
  obtain ⟨before, after, -, -, last⟩ := h
  have := c.utf8Size_pos
  rw [byteLength] at last
  omega

theorem stop_le (h : StandsIn 0 source t start stop) : stop ≤ (encode source).length := by
  obtain ⟨before, after, rfl, first, last⟩ := h
  rw [length_encode, byteLength_append, byteLength_append]
  omega

theorem take_drop (h : StandsIn 0 source t start stop) :
    ((encode source).drop start).take (stop - start) = encode t := by
  obtain ⟨before, after, rfl, first, last⟩ := h
  have size : stop - start = byteLength t := by omega
  rw [size, first, Nat.zero_add, take_drop_encode]

end StandsIn

namespace Grammar
variable {n : Nat} {source : List Char} {ts : List Token}

theorem Tokens.standsIn (h : Tokens n source ts) :
    ∀ t ∈ ts, StandsIn n source t.text t.start t.stop := by
  induction h with
  | nil => simp
  | @blank n c rest ts _ _ ih =>
    intro t member
    exact StandsIn.later (a := [c]) (ih t member)
  | @lexeme n l rest ts _ _ ih =>
    intro t member
    rcases List.mem_cons.mp member with rfl | member
    · exact .here n l.text rest
    · exact (ih t member).later

theorem Tokens.text_ne_nil (h : Tokens n source ts) : ∀ t ∈ ts, t.text ≠ [] := by
  induction h with
  | nil => simp
  | blank _ _ ih => exact ih
  | lexeme rule _ ih => exact List.forall_mem_cons.mpr ⟨rule.reads.text_ne_nil, ih⟩

theorem Tokens.ordered (h : Tokens n source ts) : ts.Pairwise fun t u => t.stop ≤ u.start := by
  induction h with
  | nil => exact .nil
  | blank _ _ ih => exact ih
  | lexeme _ tail ih => exact .cons (fun u member => (tail.standsIn u member).le_start) ih

/-- A byte that no span covers belongs to a character that the scan skipped. -/
theorem Tokens.outside (h : Tokens n source ts) {i : Nat} (low : n ≤ i)
    (high : i < n + byteLength source) (free : ∀ t ∈ ts, i < t.start ∨ t.stop ≤ i) :
    ∃ c start stop, StandsIn n source [c] start stop ∧ start ≤ i ∧ i < stop ∧
      isBlank c = true := by
  induction h with
  | nil =>
    rw [byteLength] at high
    omega
  | @blank n c rest ts white _ ih =>
    rw [byteLength] at high
    by_cases first : i < n + c.utf8Size
    · exact ⟨c, n, n + c.utf8Size, .here n [c] rest, low, first, white⟩
    · obtain ⟨d, start, stop, stands, found⟩ := ih (by omega) (by omega) free
      exact ⟨d, start, stop, StandsIn.later (a := [c]) stands, found⟩
  | @lexeme n l rest ts _ _ ih =>
    rw [byteLength_append] at high
    rw [List.forall_mem_cons] at free
    have after : n + byteLength l.text ≤ i := free.1.resolve_left (Nat.not_lt_of_le low)
    obtain ⟨d, start, stop, stands, found⟩ := ih after (by omega) free.2
    exact ⟨d, start, stop, stands.later, found⟩

theorem Rule.word_facts {l : Lexeme} {rest : List Char} (h : Rule l rest) (word : l.kind = .word) :
    (∀ c ∈ l.text, isWord c = true) ∧ ∀ d ∈ rest.head?, isWord d = false := by
  cases h with
  | word _ inside stop => exact ⟨inside, stop⟩
  | punctuation mark =>
    obtain rfl : _ = Kind.word := word
    simpa using punctuation?_cases mark
  | _ => cases word

/-- A word begins only after a blank where the text before it is a word. -/
theorem Tokens.blank_of_word {t : Token} (h : Tokens n source (t :: ts)) (word : t.kind = .word)
    (stop : ∀ d ∈ source.head?, isWord d = false) :
    ∃ c rest, source = c :: rest ∧ n + c.utf8Size ≤ t.start ∧ isBlank c = true := by
  cases h with
  | @blank _ c rest _ white tail =>
    exact ⟨c, rest, rfl, (tail.standsIn t List.mem_cons_self).le_start, white⟩
  | @lexeme _ l rest _ rule _ =>
    obtain ⟨c, cs, text⟩ := List.exists_cons_of_ne_nil rule.reads.text_ne_nil
    have inside := (rule.word_facts word).1 c (by simp [text])
    have outside := stop c (by simp [text])
    exact absurd inside (by simp [outside])

theorem Tokens.apart {before after : List Token} {t u : Token}
    (h : Tokens n source (before ++ t :: u :: after)) (left : t.kind = .word)
    (right : u.kind = .word) :
    ∃ c start stop, StandsIn n source [c] start stop ∧ t.stop ≤ start ∧ stop ≤ u.start ∧
      isBlank c = true := by
  generalize whole : before ++ t :: u :: after = ts at h
  induction h generalizing before with
  | nil => simp at whole
  | @blank n c rest ts white _ ih =>
    obtain ⟨d, start, stop, stands, found⟩ := ih whole
    exact ⟨d, start, stop, StandsIn.later (a := [c]) stands, found⟩
  | @lexeme n l rest ts rule tail ih =>
    cases before with
    | nil =>
      obtain ⟨rfl, rfl⟩ := List.cons.inj whole
      obtain ⟨c, rest, rfl, below, white⟩ := tail.blank_of_word right (rule.word_facts left).2
      exact ⟨c, _, _, (StandsIn.here _ [c] rest).later, Nat.le_refl _, below, white⟩
    | cons first before =>
      obtain ⟨rfl, others⟩ := List.cons.inj whole
      obtain ⟨d, start, stop, stands, found⟩ := ih others
      exact ⟨d, start, stop, stands.later, found⟩

theorem Tokens.tiles (h : Tokens 0 source ts) : Tiles source ts where
  nonempty t member := (h.standsIn t member).start_lt_stop (h.text_ne_nil t member)
  inside t member := (h.standsIn t member).stop_le
  boundary := h.standsIn
  slice t member := (h.standsIn t member).take_drop
  ordered := h.ordered
  outside i bound free := h.outside (Nat.zero_le i) (by rwa [Nat.zero_add, ← length_encode]) free
  apart before t u after whole left right := Tokens.apart (whole ▸ h) left right

end Grammar

/-- The tokens of every text tile it. No span cuts a character, so the scan always ends
with them. -/
theorem tokenize_tiles (source : List Char) :
    Scan.tokens? (encode source) = some (tokenize source) ∧ Tiles source (tokenize source) := by
  constructor
  · rw [tokenize_eq, Scan.tokens?_encode]
  · exact (Grammar.tokens_tokenize source).tiles

end TidySql
