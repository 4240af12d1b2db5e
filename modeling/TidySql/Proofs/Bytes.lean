import TidySql.Proofs.Reading
import TidySql.Token.Scan

/-! The bytes of a character, and the byte searches as cuts of the text.
An ASCII character is one byte below 0x80 and any other one has only bytes from 0x80 on,
so a search for marks stops at the same places in the bytes as in the characters. A search
that jumps over one byte after a backslash may land inside a character. What is left of
that character then holds no mark, and the search goes on to the same place. -/
namespace TidySql.Scan
open Text Lexer

/- The bytes of one character. -/

theorem utf8Size_ascii {c : Char} (ascii : c.toNat < 128) : c.utf8Size = 1 := by
  rw [Char.utf8Size_eq_one_iff, UInt32.le_iff_toNat_le]
  exact Nat.le_of_lt_succ ascii

theorem utf8EncodeChar_ascii {c : Char} (ascii : c.toNat < 128) :
    String.utf8EncodeChar c = [byte c] :=
  String.utf8EncodeChar_eq_singleton (utf8Size_ascii ascii)

theorem high_of_mem {c : Char} (wide : 128 ≤ c.toNat) :
    ∀ b ∈ String.utf8EncodeChar c, 128 ≤ b.toNat := by
  have large : ¬ c.val.toNat ≤ 127 := by
    change 128 ≤ c.val.toNat at wide
    omega
  fun_cases String.utf8EncodeChar c with
  | case1 v small => exact absurd small large
  | case2 | case3 | case4 =>
    simp only [List.forall_mem_cons, UInt8.toNat_ofNat', List.not_mem_nil, false_imp_iff,
      implies_true, and_true]
    omega

/-- The first byte tells how many there are. -/
theorem charLength_of_cons {c : Char} {b : UInt8} {bs : List UInt8}
    (bytes : String.utf8EncodeChar c = b :: bs) : charLength b = bs.length + 1 := by
  have valid : c.val.toNat < 1114112 := by
    have := c.valid
    simp only [UInt32.isValidChar, Nat.isValidChar] at this
    omega
  revert bytes
  fun_cases String.utf8EncodeChar c with
  | case1 v small | case2 v _ small | case3 v _ _ small | case4 v _ _ small =>
    rintro ⟨⟩
    simp only [charLength, UInt8.le_iff_toNat_le, UInt8.toNat_ofNat', UInt8.reduceToNat]
    simp only [List.length_cons, List.length_nil]
    split <;> [skip; split] <;> [skip; skip; split] <;> omega

theorem utf8EncodeChar_cons (c : Char) : ∃ b bs, String.utf8EncodeChar c = b :: bs ∧
    charLength b = c.utf8Size ∧ bs.length + 1 = c.utf8Size := by
  have length := String.length_utf8EncodeChar c
  cases bytes : String.utf8EncodeChar c with
  | nil =>
    have := c.utf8Size_pos
    rw [bytes, List.length_nil] at length
    omega
  | cons b bs =>
    rw [bytes, List.length_cons] at length
    exact ⟨b, bs, rfl, by rw [charLength_of_cons bytes, length], length⟩

/-- What follows the first byte of a character lies beyond ASCII. -/
theorem high_of_cons {c : Char} {b : UInt8} {bs : List UInt8}
    (bytes : String.utf8EncodeChar c = b :: bs) : ∀ x ∈ bs, 128 ≤ x.toNat := by
  by_cases ascii : c.toNat < 128
  · rw [utf8EncodeChar_ascii ascii] at bytes
    rw [← (List.cons.inj bytes).2]
    simp
  · intro x member
    refine high_of_mem (Nat.le_of_not_lt ascii) x ?_
    rw [bytes]
    exact List.mem_cons_of_mem b member

theorem toNat_byte {c : Char} (ascii : c.toNat < 128) : (byte c).toNat = c.toNat := by
  change c.val.toNat % 2 ^ 8 = c.val.toNat
  change c.val.toNat < 128 at ascii
  omega

theorem mark_byte {c : Char} (ascii : c.toNat < 128) : mark (byte c) = c := by
  have same : (mark (byte c)).toNat = c.toNat := toNat_byte ascii
  exact Char.toNat_inj.mp same

/-- Only the character itself holds the byte of an ASCII character. -/
theorem eq_of_byte_mem {c d : Char} (ascii : c.toNat < 128)
    (inside : byte c ∈ String.utf8EncodeChar d) : d = c := by
  by_cases narrow : d.toNat < 128
  · rw [utf8EncodeChar_ascii narrow, List.mem_singleton] at inside
    rw [← mark_byte narrow, ← inside, mark_byte ascii]
  · have high := high_of_mem (Nat.le_of_not_lt narrow) (byte c) inside
    rw [toNat_byte ascii] at high
    omega

theorem encode_cons_ascii {c : Char} (ascii : c.toNat < 128) (cs : List Char) :
    encode (c :: cs) = byte c :: encode cs := by
  rw [encode_cons, utf8EncodeChar_ascii ascii]
  rfl

theorem byteLength_cons_ascii {c : Char} (ascii : c.toNat < 128) (cs : List Char) :
    byteLength (c :: cs) = byteLength cs + 1 := by
  rw [byteLength, utf8Size_ascii ascii, Nat.add_comm]

theorem head?_encode {c : Char} (ascii : c.toNat < 128) (cs : List Char) :
    (encode cs).head? = some (byte c) ↔ cs.head? = some c := by
  cases cs with
  | nil => simp [encode_nil]
  | cons d cs =>
    obtain ⟨b, bs, bytes, -⟩ := utf8EncodeChar_cons d
    rw [encode_cons, bytes, List.cons_append, List.head?_cons, List.head?_cons, Option.some_inj,
      Option.some_inj]
    constructor
    · rintro rfl
      exact eq_of_byte_mem ascii (bytes ▸ List.mem_cons_self)
    · rintro rfl
      rw [utf8EncodeChar_ascii ascii] at bytes
      exact (List.cons.inj bytes).1.symm

/- Quoted texts. -/

theorem quotedLength_plain (quote : UInt8) (xs ys : List UInt8)
    (plain : ∀ b ∈ xs, stopsQuoted quote b = false) :
    quotedLength quote (xs ++ ys) = xs.length + quotedLength quote ys := by
  have skipped : xs.findIdx? (stopsQuoted quote) = none := List.findIdx?_eq_none_iff.mpr plain
  have found : (xs ++ ys).findIdx? (stopsQuoted quote) =
      (ys.findIdx? (stopsQuoted quote)).map (· + xs.length) := by
    rw [List.findIdx?_append, skipped, Option.none_or]
  rw [quotedLength, quotedLength, found]
  cases ys.findIdx? (stopsQuoted quote) with
  | none => simp
  | some i =>
    have rest : (xs ++ ys).drop (i + xs.length) = ys.drop i := by
      rw [Nat.add_comm, ← List.drop_drop, List.drop_left]
    simp only [Option.map_some]
    rw [rest]
    split
    · rename_i b next tail _
      by_cases jumps : b = byte '\\' ∨ next = quote
      · rw [if_pos jumps, if_pos jumps]
        omega
      · rw [if_neg jumps, if_neg jumps]
        omega
    · omega

theorem quotedLength_stop {quote b : UInt8} (stops : stopsQuoted quote b = true)
    (next : UInt8) (bytes : List UInt8) : quotedLength quote (b :: next :: bytes) =
      if b = byte '\\' ∨ next = quote then quotedLength quote bytes + 2 else 1 := by
  have found : (b :: next :: bytes).findIdx? (stopsQuoted quote) = some 0 := by
    simp [List.findIdx?_cons, stops]
  rw [quotedLength, found]
  change (if b = byte '\\' ∨ next = quote then 0 + 2 + quotedLength quote bytes else 0 + 1) = _
  rw [Nat.zero_add, Nat.zero_add, Nat.add_comm]

theorem quotedLength_last {quote b : UInt8} (stops : stopsQuoted quote b = true) :
    quotedLength quote [b] = 1 := by
  have found : [b].findIdx? (stopsQuoted quote) = some 0 := by
    simp [List.findIdx?_cons, stops]
  rw [quotedLength, found]
  rfl

theorem quotedLength_nil (quote : UInt8) : quotedLength quote [] = 0 := by
  rw [quotedLength]
  rfl

theorem ne_byte_of_high {c : Char} {b : UInt8} (ascii : c.toNat < 128) (high : 128 ≤ b.toNat) :
    b ≠ byte c := by
  rintro rfl
  rw [toNat_byte ascii] at high
  omega

theorem stopsQuoted_high {q : Char} {b : UInt8} (ascii : q.toNat < 128) (high : 128 ≤ b.toNat) :
    stopsQuoted (byte q) b = false := by
  rw [stopsQuoted, Bool.or_eq_false_iff, beq_eq_false_iff_ne, beq_eq_false_iff_ne]
  exact ⟨ne_byte_of_high ascii high, ne_byte_of_high (by decide) high⟩

/-- The bytes of a character stop the search only if it is a quote or a backslash. -/
theorem stopsQuoted_of_mem {q c : Char} (ascii : q.toNat < 128) (plain : c ≠ '\\') (inside : c ≠ q) :
    ∀ b ∈ String.utf8EncodeChar c, stopsQuoted (byte q) b = false := by
  intro b member
  rw [stopsQuoted, Bool.or_eq_false_iff, beq_eq_false_iff_ne, beq_eq_false_iff_ne]
  constructor
  · rintro rfl
    exact inside (eq_of_byte_mem ascii member)
  · rintro rfl
    exact plain (eq_of_byte_mem (by decide) member)

theorem quotedLength_cons {q c : Char} (ascii : q.toNat < 128) (plain : c ≠ '\\') (inside : c ≠ q)
    (cs : List Char) : quotedLength (byte q) (encode (c :: cs)) =
      c.utf8Size + quotedLength (byte q) (encode cs) := by
  rw [encode_cons, quotedLength_plain _ _ _ (stopsQuoted_of_mem ascii plain inside),
    String.length_utf8EncodeChar]

theorem stopsQuoted_byte {q c : Char} (ascii : q.toNat < 128) (special : c = '\\' ∨ c = q) :
    c.toNat < 128 ∧ stopsQuoted (byte q) (byte c) = true := by
  rcases special with rfl | rfl
  · exact ⟨by decide, by simp [stopsQuoted]⟩
  · exact ⟨ascii, by simp [stopsQuoted]⟩

/-- After a backslash the search jumps over one byte of the next character. None of the
bytes that are left of it stops the search. -/
theorem quotedLength_jump {q c d : Char} (ascii : q.toNat < 128)
    (paired : c = '\\' ∨ (c = q ∧ d = q)) (cs : List Char) :
    quotedLength (byte q) (encode (c :: d :: cs)) =
      d.utf8Size + 1 + quotedLength (byte q) (encode cs) := by
  obtain ⟨narrow, stops⟩ := stopsQuoted_byte ascii (paired.imp_right And.left)
  obtain ⟨b, bs, bytes, -, length⟩ := utf8EncodeChar_cons d
  have jumps : byte c = byte '\\' ∨ b = byte q := by
    rcases paired with rfl | ⟨-, rfl⟩
    · exact .inl rfl
    · rw [utf8EncodeChar_ascii ascii] at bytes
      exact .inr (List.cons.inj bytes).1.symm
  have left : ∀ x ∈ bs, stopsQuoted (byte q) x = false :=
    fun x member => stopsQuoted_high ascii (high_of_cons bytes x member)
  rw [encode_cons_ascii narrow, encode_cons, bytes, List.cons_append, quotedLength_stop stops,
    if_pos jumps, quotedLength_plain _ _ _ left]
  omega

theorem quotedLength_encode {q : Char} (ascii : q.toNat < 128) (cs : List Char) :
    quotedLength (byte q) (encode cs) = byteLength (cutQuoted q cs).1 := by
  fun_induction cutQuoted q cs with
  | case1 =>
    rw [encode_nil, quotedLength_nil]
    rfl
  | case2 c =>
    by_cases special : c = '\\' ∨ c = q
    · obtain ⟨narrow, stops⟩ := stopsQuoted_byte ascii special
      rw [encode_cons_ascii narrow, encode_nil, quotedLength_last stops,
        byteLength_cons_ascii narrow]
      rfl
    · obtain ⟨plain, inside⟩ := not_or.mp special
      rw [quotedLength_cons ascii plain inside, encode_nil, quotedLength_nil]
      rfl
  | case3 c d cs paired s ih =>
    have narrow := (stopsQuoted_byte ascii (paired.imp_right And.left)).1
    have tail : quotedLength (byte q) (encode cs) = byteLength s.1 := ih
    rw [quotedLength_jump ascii paired, byteLength_cons_ascii narrow, byteLength, tail]
    omega
  | case4 d cs unpaired =>
    obtain ⟨b, bs, bytes, -⟩ := utf8EncodeChar_cons d
    have stays : ¬ (byte q = byte '\\' ∨ b = byte q) := by
      rintro (escape | rfl)
      · exact unpaired (.inl (by rw [← mark_byte ascii, escape, mark_byte (by decide)]))
      · exact unpaired (.inr ⟨rfl, eq_of_byte_mem ascii (bytes ▸ List.mem_cons_self)⟩)
    have stops := (stopsQuoted_byte ascii (.inr rfl)).2
    rw [encode_cons_ascii ascii, encode_cons, bytes, List.cons_append, quotedLength_stop stops,
      if_neg stays, byteLength_cons_ascii ascii]
    rfl
  | case5 c d cs unpaired inside s ih =>
    rw [quotedLength_cons ascii (fun h => unpaired (.inl h)) inside, ih, byteLength]

/- Comments. -/

theorem lineLength_plain (x : UInt8) (xs bytes : List UInt8)
    (plain : ∀ b ∈ xs, stopsLine b = false) :
    lineLength (x :: (xs ++ bytes)) = xs.length + lineLength (x :: bytes) := by
  have skipped : xs.findIdx? stopsLine = none := List.findIdx?_eq_none_iff.mpr plain
  simp only [lineLength, List.drop_succ_cons, List.drop_zero, List.findIdx?_append, skipped,
    Option.none_or, List.length_cons, List.length_append]
  cases bytes.findIdx? stopsLine with
  | none =>
    simp only [Option.map_none]
    omega
  | some i =>
    simp only [Option.map_some]
    omega

theorem stopsLine_of_mem {c : Char} (inside : isLineEnd c = false) :
    ∀ b ∈ String.utf8EncodeChar c, stopsLine b = false := by
  intro b member
  rw [stopsLine, Bool.or_eq_false_iff, beq_eq_false_iff_ne, beq_eq_false_iff_ne]
  constructor
  · rintro rfl
    rw [eq_of_byte_mem (by decide) member] at inside
    exact absurd inside (by decide)
  · rintro rfl
    rw [eq_of_byte_mem (by decide) member] at inside
    exact absurd inside (by decide)

theorem lineLength_encode (x : UInt8) (cs : List Char) :
    lineLength (x :: encode cs) = byteLength (Lexer.cutLine cs).1 + 1 := by
  induction cs with
  | nil =>
    rw [encode_nil]
    rfl
  | cons c cs ih =>
    by_cases ends : isLineEnd c = true
    · have taken : (Lexer.cutLine (c :: cs)).1 = [] := by simp [Lexer.cutLine, ends]
      have narrow : c.toNat < 128 ∧ stopsLine (byte c) = true := by
        simp only [isLineEnd, Bool.or_eq_true, beq_iff_eq] at ends
        rcases ends with rfl | rfl <;> decide
      have found : (byte c :: encode cs).findIdx? stopsLine = some 0 := by
        simp [List.findIdx?_cons, narrow.2]
      rw [encode_cons_ascii narrow.1, taken, lineLength, List.drop_one, List.tail_cons, found]
      rfl
    · have inside : isLineEnd c = false := by simpa using ends
      have taken : (Lexer.cutLine (c :: cs)).1 = c :: (Lexer.cutLine cs).1 := by
        simp [Lexer.cutLine, inside]
      rw [encode_cons, lineLength_plain _ _ _ (stopsLine_of_mem inside),
        String.length_utf8EncodeChar, ih, taken, byteLength]
      omega

theorem findPair?_cons {a b c : UInt8} {bytes : List UInt8}
    (apart : ¬ (c = a ∧ bytes.head? = some b)) :
    findPair? a b (c :: bytes) = (findPair? a b bytes).map (· + 1) := by
  cases bytes with
  | nil => rfl
  | cons d bytes =>
    have different : ¬ (c = a ∧ d = b) := by simpa using apart
    rw [findPair?, if_neg different]

theorem blockLength_cons {x c : UInt8} {bytes : List UInt8}
    (apart : ¬ (c = byte '*' ∧ bytes.head? = some (byte '/'))) :
    blockLength (x :: c :: bytes) = blockLength (x :: bytes) + 1 := by
  simp only [blockLength, List.drop_succ_cons, List.drop_zero, findPair?_cons apart]
  cases findPair? (byte '*') (byte '/') bytes with
  | none => rfl
  | some i => rfl

theorem blockLength_plain (x : UInt8) (xs bytes : List UInt8) (plain : ∀ b ∈ xs, b ≠ byte '*') :
    blockLength (x :: (xs ++ bytes)) = xs.length + blockLength (x :: bytes) := by
  induction xs with
  | nil => exact (Nat.zero_add _).symm
  | cons b xs ih =>
    rw [List.forall_mem_cons] at plain
    rw [List.cons_append, blockLength_cons (fun h => plain.1 h.1), ih plain.2, List.length_cons]
    omega

theorem blockLength_encode_cons (x : UInt8) {c : Char} {cs : List Char}
    (apart : ¬ (c = '*' ∧ cs.head? = some '/')) :
    blockLength (x :: encode (c :: cs)) = c.utf8Size + blockLength (x :: encode cs) := by
  by_cases star : c = '*'
  · subst star
    have open_ : ¬ (byte '*' = byte '*' ∧ (encode cs).head? = some (byte '/')) := by
      rw [head?_encode (by decide)]
      exact fun h => apart ⟨rfl, h.2⟩
    rw [encode_cons_ascii (by decide), blockLength_cons open_]
    exact Nat.add_comm _ 1
  · have plain : ∀ b ∈ String.utf8EncodeChar c, b ≠ byte '*' := by
      rintro b member rfl
      exact star (eq_of_byte_mem (by decide) member)
    rw [encode_cons, blockLength_plain _ _ _ plain, String.length_utf8EncodeChar]

/-- The star that opens the comment is left out of the search. -/
theorem blockLength_encode (x : UInt8) (cs : List Char) :
    blockLength (x :: encode cs) = byteLength (cutBlock cs).1 + 1 := by
  fun_induction cutBlock cs with
  | case1 =>
    rw [encode_nil]
    rfl
  | case2 c =>
    rw [blockLength_encode_cons x (by simp), encode_nil]
    rfl
  | case3 c d cs ends =>
    obtain ⟨rfl, rfl⟩ := ends
    rw [encode_cons_ascii (by decide), encode_cons_ascii (by decide)]
    rfl
  | case4 c d cs goes s ih =>
    have apart : ¬ (c = '*' ∧ (d :: cs).head? = some '/') := by simpa using goes
    have tail : blockLength (x :: encode (d :: cs)) = byteLength s.1 + 1 := ih
    rw [blockLength_encode_cons x apart, tail, byteLength, Nat.add_assoc]

/- Marks and blanks. -/

theorem ascii_of_isQuote {c : Char} (quote : isQuote c = true) : c.toNat < 128 := by
  simp only [isQuote, Bool.or_eq_true, beq_iff_eq] at quote
  rcases quote with (rfl | rfl) | rfl <;> decide

theorem ascii_of_punctuation? {c : Char} {k : Kind} (marked : punctuation? c = some k) :
    c.toNat < 128 := by
  rcases punctuation?_cases marked with ⟨rfl, -⟩ | ⟨rfl, -⟩ | ⟨rfl, -⟩ | ⟨rfl, -⟩ <;> decide

theorem ascii_of_isOperator {c : Char} (operator : isOperator c = true) : c.toNat < 128 := by
  have listed := List.contains_iff_mem.mp operator
  simp only [List.mem_cons, List.not_mem_nil, or_false] at listed
  rcases listed with rfl | rfl | rfl | rfl | rfl | rfl | rfl | rfl | rfl <;> decide

theorem operatorLength_encode {c : Char} (ascii : c.toNat < 128) (cs : List Char) :
    operatorLength (byte c) (encode cs) = byteLength (cutOperator c cs).1 := by
  cases cs with
  | nil =>
    rw [encode_nil]
    rfl
  | cons d cs =>
    obtain ⟨b, bs, bytes, -⟩ := utf8EncodeChar_cons d
    rw [operatorLength, encode_cons, bytes, mark_byte ascii]
    by_cases narrow : d.toNat < 128
    · rw [utf8EncodeChar_ascii narrow] at bytes
      have same : mark b = d := by rw [← (List.cons.inj bytes).1, mark_byte narrow]
      by_cases two : isOperatorPair c d = true
      · have one : byteLength [d] = 1 := byteLength_cons_ascii narrow []
        simp [same, two, cutOperator, one]
      · simp [same, two, cutOperator, byteLength]
    · have high := high_of_mem (Nat.le_of_not_lt narrow) b (bytes ▸ List.mem_cons_self)
      have apart : ∀ e : Char, 128 ≤ e.toNat → isOperatorPair c e = false := by
        intro e wide
        rw [Bool.eq_false_iff]
        intro two
        have := ascii_of_isOperator (isOperatorPair_facts two).2.1
        omega
      simp [apart (mark b) high, apart d (Nat.le_of_not_lt narrow), cutOperator, byteLength]

theorem not_marked_of_plain {c : Char} (plain : isBlank c = true ∨ isWord c = true) :
    isQuote c = false ∧ punctuation? c = none ∧ isOperator c = false := by
  rcases plain with blank | word
  · refine ⟨?_, ?_, ?_⟩
    · rw [Bool.eq_false_iff]
      intro quote
      exact Bool.false_ne_true ((isQuote_facts c quote).1.symm.trans blank)
    · rw [Option.eq_none_iff_forall_ne_some]
      intro k marked
      exact Bool.false_ne_true ((punctuation?_facts marked).1.symm.trans blank)
    · rw [Bool.eq_false_iff]
      intro operator
      exact Bool.false_ne_true ((isOperator_facts c operator).1.symm.trans blank)
  · exact ((isWord_iff c).mp word).2

/-- The first byte of a character that is no mark is none either. -/
theorem not_marked_of_cons {c : Char} (plain : isBlank c = true ∨ isWord c = true) {b : UInt8}
    {bs : List UInt8} (bytes : String.utf8EncodeChar c = b :: bs) :
    isQuote (mark b) = false ∧ punctuation? (mark b) = none ∧ isOperator (mark b) = false := by
  by_cases ascii : c.toNat < 128
  · rw [utf8EncodeChar_ascii ascii] at bytes
    rw [← (List.cons.inj bytes).1, mark_byte ascii]
    exact not_marked_of_plain plain
  · have high : 128 ≤ (mark b).toNat :=
      high_of_mem (Nat.le_of_not_lt ascii) b (bytes ▸ List.mem_cons_self)
    refine ⟨?_, ?_, ?_⟩
    · rw [Bool.eq_false_iff]
      intro quote
      exact absurd (ascii_of_isQuote quote) (Nat.not_lt_of_le high)
    · rw [Option.eq_none_iff_forall_ne_some]
      intro k marked
      exact absurd (ascii_of_punctuation? marked) (Nat.not_lt_of_le high)
    · rw [Bool.eq_false_iff]
      intro operator
      exact absurd (ascii_of_isOperator operator) (Nat.not_lt_of_le high)

theorem marked?_plain {c : Char} (plain : isBlank c = true ∨ isWord c = true) {b : UInt8}
    {bs : List UInt8} (bytes : String.utf8EncodeChar c = b :: bs) (rest : List UInt8) :
    marked? b rest = none := by
  obtain ⟨quote, punctuation, operator⟩ := not_marked_of_cons plain bytes
  have line : b ≠ byte '-' := by
    rintro rfl
    exact absurd operator (by decide)
  have block : b ≠ byte '/' := by
    rintro rfl
    exact absurd operator (by decide)
  simp [marked?, quote, line, block, punctuation, operator]

theorem byte_inj {c d : Char} (narrow : c.toNat < 128) (ascii : d.toNat < 128) :
    byte c = byte d ↔ c = d := by
  constructor
  · intro same
    rw [← mark_byte narrow, same, mark_byte ascii]
  · exact congrArg byte

theorem ascii_of_marked {c : Char} (solid : isBlank c = false) (marked : isWord c = false) :
    c.toNat < 128 := by
  by_cases quote : isQuote c = true
  · exact ascii_of_isQuote quote
  · cases punctuation : punctuation? c with
    | some k => exact ascii_of_punctuation? punctuation
    | none =>
      by_cases operator : isOperator c = true
      · exact ascii_of_isOperator operator
      · simp [isWord, solid, quote, punctuation, operator] at marked

theorem marked?_encode {c : Char} (solid : isBlank c = false) (marked : isWord c = false)
    (cs : List Char) :
    marked? (byte c) (encode cs) = some ((cut c cs).1, byteLength (cut c cs).2.1) := by
  have ascii := ascii_of_marked solid marked
  have line : byte c = byte '-' ∧ (encode cs).head? = some (byte '-') ↔
      c = '-' ∧ cs.head? = some '-' := by
    rw [byte_inj ascii (by decide), head?_encode (by decide)]
  have block : byte c = byte '/' ∧ (encode cs).head? = some (byte '*') ↔
      c = '/' ∧ cs.head? = some '*' := by
    rw [byte_inj ascii (by decide), head?_encode (by decide)]
  simp only [marked?, cut, mark_byte ascii, line, block]
  split
  · rw [quotedLength_encode ascii]
  · rename_i quote
    split
    · rename_i dash
      obtain ⟨ds, rfl⟩ := List.head?_eq_some_iff.mp dash.2
      have taken : (Lexer.cutLine ('-' :: ds)).1 = '-' :: (Lexer.cutLine ds).1 := rfl
      rw [encode_cons_ascii (by decide), lineLength_encode, taken,
        byteLength_cons_ascii (by decide)]
    · split
      · rename_i slash
        obtain ⟨ds, rfl⟩ := List.head?_eq_some_iff.mp slash.2
        rw [encode_cons_ascii (by decide), blockLength_encode, List.tail_cons,
          byteLength_cons_ascii (by decide)]
      · cases punctuation : punctuation? c with
        | some k => rfl
        | none =>
          by_cases operator : isOperator c = true
          · simp only [if_pos operator, operatorLength_encode ascii]
          · simp [isWord, solid, quote, punctuation, operator] at marked

theorem firstChar?_encode (c : Char) (bytes : List UInt8) :
    firstChar? (String.utf8EncodeChar c ++ bytes) = some c := by
  have short : (String.utf8EncodeChar c).length ≤ 4 := by
    rw [String.length_utf8EncodeChar]
    exact c.utf8Size_le_four
  rw [firstChar?, List.take_append, List.take_of_length_le short, List.toByteArray_append]
  exact ByteArray.utf8DecodeChar?_utf8EncodeChar_append

theorem blanks_contains : ∀ n < 128,
    blanks.contains (byte (Char.ofNat n)) = isBlank (Char.ofNat n) := by decide

theorem blankLength?_encode {c : Char} {b : UInt8} {bs : List UInt8}
    (bytes : String.utf8EncodeChar c = b :: bs) (rest : List UInt8) :
    blankLength? b (bs ++ rest) = some (if isBlank c then c.utf8Size else 0) := by
  by_cases ascii : c.toNat < 128
  · rw [utf8EncodeChar_ascii ascii] at bytes
    obtain ⟨rfl, rfl⟩ := List.cons.inj bytes
    have small : byte c < 0x80 := by
      rw [UInt8.lt_iff_toNat_lt, toNat_byte ascii]
      exact ascii
    have listed := blanks_contains c.toNat ascii
    rw [Char.ofNat_toNat] at listed
    rw [blankLength?, if_pos small, listed, utf8Size_ascii ascii]
  · have large : ¬ b < 0x80 := by
      rw [UInt8.lt_iff_toNat_lt]
      exact Nat.not_lt_of_le (high_of_mem (Nat.le_of_not_lt ascii) b (bytes ▸ List.mem_cons_self))
    rw [blankLength?, if_neg large, ← List.cons_append, ← bytes, firstChar?_encode]
    rfl

end TidySql.Scan
