import WordMachine.Text.Utf8

/-!
# Texts as bytes

Encoding goes character by character, so that the bytes of a text put together are the bytes of its
parts (`encode_append`). Bytes below `0x80` are characters of their own, and are text however they
follow each other (`isSome_decode?_of_ascii`).
-/

namespace WordMachine.Text.Utf8

/-- The bytes of two texts are the bytes of the one and then those of the other. -/
theorem encode_append (front back : String) :
    encode (front ++ back) = encode front ++ encode back := by
  rw [encode, String.toList_append, List.flatMap_append]
  rfl

/-- Behind characters, bytes below `0x80` are read as characters. -/
theorem isSome_of_mem_piecesOnto {bytes : List UInt8} (hascii : ∀ byte ∈ bytes, byte < 0x80)
    {read : List (Option Char)} (hread : ∀ piece ∈ read, piece.isSome = true) :
    ∀ piece ∈ piecesOnto read bytes, piece.isSome = true := by
  induction bytes generalizing read with
  | nil =>
    rw [piecesOnto]
    exact hread
  | cons byte bytes ih =>
    obtain ⟨hbyte, hbytes⟩ := List.forall_mem_cons.mp hascii
    have hpiece : piece byte bytes = (some (Char.ofNat byte.toNat), bytes) := by
      rw [piece, if_pos hbyte]
    rw [piecesOnto, hpiece]
    exact ih hbytes (List.forall_mem_cons.mpr ⟨rfl, hread⟩)

/-- Bytes below `0x80` are a text. -/
theorem isSome_decode?_of_ascii {bytes : List UInt8} (hascii : ∀ byte ∈ bytes, byte < 0x80) :
    (decode? bytes).isSome = true := by
  have hpieces : (pieces bytes).all Option.isSome = true := by
    rw [pieces, List.all_reverse, List.all_eq_true]
    exact isSome_of_mem_piecesOnto hascii nofun
  rw [decode?, if_pos hpieces]
  rfl

end WordMachine.Text.Utf8
