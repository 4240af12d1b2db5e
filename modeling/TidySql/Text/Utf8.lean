/-! Texts in UTF-8.
Bytes are the unit of every offset and the content of every file. Decoding and
encoding are inverse to each other, so a file holds at most one text. -/
namespace TidySql.Text

def byteLength : List Char → Nat
  | [] => 0
  | c :: cs => c.utf8Size + byteLength cs

def encode (cs : List Char) : List UInt8 := (String.ofList cs).toUTF8.data.toList

def decode? (bytes : List UInt8) : Option (List Char) :=
  (String.fromUTF8? ⟨bytes.toArray⟩).map String.toList

theorem decode?_encode (cs : List Char) : decode? (encode cs) = some cs := by
  have whole : (⟨(encode cs).toArray⟩ : ByteArray) = (String.ofList cs).toByteArray := by
    rw [encode, Array.toArray_toList]; rfl
  rw [decode?, whole, String.fromUTF8?, dif_pos (String.ofList cs).isValidUTF8]
  exact congrArg some String.toList_ofList

theorem encode_of_decode? {bytes : List UInt8} {cs : List Char} (h : decode? bytes = some cs) :
    encode cs = bytes := by
  obtain ⟨s, hs, rfl⟩ := Option.map_eq_some_iff.mp h
  rw [String.fromUTF8?] at hs
  split at hs
  · cases hs
    rw [encode, String.ofList_toList]
    rfl
  · cases hs

theorem encode_eq_flatMap (cs : List Char) : encode cs = cs.flatMap String.utf8EncodeChar := by
  simp [encode, List.utf8Encode]

theorem encode_nil : encode [] = [] := by rw [encode_eq_flatMap, List.flatMap_nil]

theorem encode_cons (c : Char) (cs : List Char) :
    encode (c :: cs) = String.utf8EncodeChar c ++ encode cs := by
  rw [encode_eq_flatMap, encode_eq_flatMap, List.flatMap_cons]

theorem encode_append (a b : List Char) : encode (a ++ b) = encode a ++ encode b := by
  rw [encode_eq_flatMap, encode_eq_flatMap, encode_eq_flatMap, List.flatMap_append]

theorem length_encode (cs : List Char) : (encode cs).length = byteLength cs := by
  induction cs with
  | nil => rw [encode_nil]; rfl
  | cons c cs ih =>
    rw [encode_cons, List.length_append, String.length_utf8EncodeChar, ih, byteLength]

theorem byteLength_append (a b : List Char) :
    byteLength (a ++ b) = byteLength a + byteLength b := by
  induction a with
  | nil => simp [byteLength]
  | cons c a ih => simp [byteLength, ih, Nat.add_assoc]

/-- A part of a text, cut out of the bytes of the whole. -/
theorem take_drop_encode (a t r : List Char) :
    ((encode (a ++ t ++ r)).drop (byteLength a)).take (byteLength t) = encode t := by
  rw [List.append_assoc, encode_append, encode_append, ← length_encode a, List.drop_left,
    ← length_encode t, List.take_left]

end TidySql.Text
