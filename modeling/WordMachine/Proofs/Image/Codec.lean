import WordMachine.Image

/-!
# Images are read as they were written

The bytes of a word are its digits to the base 256, the low one first (`Word.toNat_ofBytes`), and
any two bytes are those of a word (`Word.toBytes_ofBytes`). An image is read two bytes at a time, so
that each pair is one of the words that were written (`decode_encode`).

The other way round, the words that are read from any bytes are those that the bytes are the image
of (`decode_eq_ok_iff`), and only an odd number of bytes is refused (`decode_eq_error_iff`). So images
and lists of words correspond one to one (`reads_back_exactly`).
-/

namespace WordMachine

/-! ## One word -/

/-- The value of a word is that of its bytes. -/
theorem Word.toNat_ofBytes (low high : UInt8) :
    (Word.ofBytes low high).toNat = 256 * high.toNat + low.toNat := by
  have hhigh : high.toUInt16.toNat <<< ((8 : UInt16).toNat % 16) % 2 ^ 16 = 2 ^ 8 * high.toNat := by
    have hlt := high.toNat_lt
    rw [UInt8.toNat_toUInt16, Nat.shiftLeft_eq]
    change high.toNat * 256 % 65536 = 256 * high.toNat
    omega
  rw [ofBytes, UInt16.toNat_or, UInt16.toNat_shiftLeft, hhigh, UInt8.toNat_toUInt16,
    ← Nat.two_pow_add_eq_or_of_lt low.toNat_lt]

/-- The high byte of a word is what is left over when the low byte is taken off. -/
theorem Word.toNat_highByte (word : Word) : (word >>> 8).toUInt8.toNat = word.toNat / 256 := by
  have hlt := word.toNat_lt
  rw [UInt16.toNat_toUInt8, UInt16.toNat_shiftRight, Nat.shiftRight_eq_div_pow]
  change word.toNat / 256 % 256 = word.toNat / 256
  omega

/-- A word is put together again from its bytes. -/
theorem Word.ofBytes_toBytes (word : Word) :
    Word.ofBytes word.toUInt8 (word >>> 8).toUInt8 = word := by
  apply UInt16.toNat.inj
  rw [Word.toNat_ofBytes, Word.toNat_highByte, UInt16.toNat_toUInt8]
  exact Nat.div_add_mod word.toNat 256

/-- The bytes of a word are the remainder and the quotient of its value, in this order. -/
theorem Word.map_toNat_toBytes (word : Word) :
    word.toBytes.map UInt8.toNat = [word.toNat % 256, word.toNat / 256] := by
  rw [toBytes, List.map_cons, List.map_singleton, UInt16.toNat_toUInt8, Word.toNat_highByte]

/-- Two bytes are taken apart again from the word they were put into. -/
theorem Word.toBytes_ofBytes (low high : UInt8) : (Word.ofBytes low high).toBytes = [low, high] := by
  have hlt := low.toNat_lt
  have hlow : (ofBytes low high).toUInt8 = low := by
    apply UInt8.toNat.inj
    rw [UInt16.toNat_toUInt8, toNat_ofBytes]
    omega
  have hhigh : (ofBytes low high >>> 8).toUInt8 = high := by
    apply UInt8.toNat.inj
    rw [toNat_highByte, toNat_ofBytes]
    omega
  rw [toBytes, hlow, hhigh]

namespace Image

/-! ## Images -/

/-- An image has two bytes for each word. -/
theorem length_encode (words : List Word) : (encode words).length = 2 * words.length := by
  induction words with
  | nil => rfl
  | cons word words ih =>
    rw [encode, List.flatMap_cons, List.length_append, List.length_cons]
    change 2 + (encode words).length = 2 * (words.length + 1)
    omega

/-- The pairs of bytes of an image are the words that were written. -/
theorem pairsOnto_encode (read words : List Word) :
    pairsOnto read (encode words) = words.reverse ++ read := by
  induction words generalizing read with
  | nil => rfl
  | cons word words ih =>
    rw [List.reverse_cons, List.append_assoc, List.singleton_append, ← ih]
    change pairsOnto (Word.ofBytes word.toUInt8 (word >>> 8).toUInt8 :: read) (encode words) = _
    rw [Word.ofBytes_toBytes]

/-- An image is read as it was written, whatever words it holds. -/
theorem decode_encode (words : List Word) : decode (encode words) = .ok words := by
  have heven : (encode words).length % 2 = 0 := by
    rw [length_encode]
    exact Nat.mul_mod_right 2 words.length
  rw [decode, if_pos heven, pairsOnto_encode, List.append_nil, List.reverse_reverse]

/-- An even number of bytes is what its pairs are written as, behind the image of what was read
before. -/
theorem encode_reverse_pairsOnto (read : List Word) (bytes : List UInt8)
    (heven : bytes.length % 2 = 0) :
    encode (pairsOnto read bytes).reverse = encode read.reverse ++ bytes := by
  fun_induction pairsOnto read bytes with
  | case1 read low high rest ih =>
    have hrest : rest.length % 2 = 0 := by
      rw [List.length_cons, List.length_cons] at heven
      omega
    rw [ih hrest, List.reverse_cons, encode, List.flatMap_append, List.flatMap_singleton,
      Word.toBytes_ofBytes, List.append_assoc]
    rfl
  | case2 bytes read hnopair =>
    -- Fewer than two bytes are left, and a single one is ruled out.
    match bytes with
    | [] => rw [List.append_nil]
    | [byte] => cases heven
    | low :: high :: rest => exact absurd rfl (hnopair low high rest)

/-- Bytes are read as the words that they are the image of. -/
theorem decode_eq_ok_iff {bytes : List UInt8} {words : List Word} :
    decode bytes = .ok words ↔ encode words = bytes := by
  constructor
  · intro h
    unfold decode at h
    split at h
    · next heven =>
      obtain rfl := Except.ok.inj h
      exact encode_reverse_pairsOnto [] bytes heven
    · cases h
  · rintro rfl
    exact decode_encode words

/-- Exactly an odd number of bytes is refused. -/
theorem decode_eq_error_iff {bytes : List UInt8} {fault : Fault} :
    decode bytes = .error fault ↔
      bytes.length % 2 = 1 ∧ fault = .truncatedImage bytes.length := by
  rw [decode]
  split
  · next heven => simp [heven]
  · next hodd => simp [Nat.mod_two_ne_zero.mp hodd, eq_comm]

/-- Images and lists of words correspond one to one. Whatever words are written, valid or not, are
read back, and they are written in pairs of bytes, the low byte first. Bytes are refused with their
number if that is odd; if it is even, they are the image of the words that are read. -/
theorem reads_back_exactly :
    (∀ words, decode (encode words) = .ok words) ∧
    (∀ words, (encode words).map UInt8.toNat =
      words.flatMap fun word => [word.toNat % 256, word.toNat / 256]) ∧
    ∀ bytes,
      (∀ fault, decode bytes = .error fault ↔
        bytes.length % 2 = 1 ∧ fault = .truncatedImage bytes.length) ∧
      (bytes.length % 2 = 0 ↔ ∃ words, decode bytes = .ok words ∧ encode words = bytes) := by
  refine ⟨decode_encode, fun words => ?_, fun bytes => ⟨fun _ => decode_eq_error_iff, ?_, ?_⟩⟩
  · rw [encode, List.map_flatMap]
    exact congrArg (List.flatMap · words) (funext Word.map_toNat_toBytes)
  · intro heven
    refine ⟨(pairsOnto [] bytes).reverse, ?_, encode_reverse_pairsOnto [] bytes heven⟩
    rw [decode, if_pos heven]
  · rintro ⟨words, -, rfl⟩
    rw [length_encode]
    exact Nat.mul_mod_right 2 words.length

end Image

end WordMachine
