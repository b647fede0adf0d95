/-!
# UTF-8

Encoding of characters as bytes, and decoding that never gives up: where the bytes are no UTF-8,
the longest run that could still have become a character counts as one bad piece, and decoding
goes on behind it. `decode?` accepts exactly the texts without a bad piece, and `decodeLossy`
shows each bad piece as one replacement character.
-/

namespace WordMachine.Text.Utf8

/-- The bytes of a text. -/
def encode (text : String) : List UInt8 := text.toList.flatMap String.utf8EncodeChar

/-- Reads `count` continuation bytes, of which the first must lie between `low` and `high`, and
adds them to the bits read so far. Gives no character at the first byte that does not fit, which
is left unread. -/
def continuation (low high : UInt8) : (count : Nat) → (bits : Nat) → List UInt8 → Option Char × List UInt8
  | 0, bits, rest => (some (Char.ofNat bits), rest)
  | count + 1, bits, byte :: rest =>
    if low ≤ byte ∧ byte ≤ high then
      continuation 0x80 0xbf count (bits * 64 + byte.toNat % 64) rest
    else (none, byte :: rest)
  | _ + 1, _, [] => (none, [])

/-- Reads the character that starts with `lead`, or a bad piece, and returns what follows it. The
bounds on the second byte keep out overlong forms, surrogates and numbers beyond the last
character. -/
def piece (lead : UInt8) (rest : List UInt8) : Option Char × List UInt8 :=
  if lead < 0x80 then (some (Char.ofNat lead.toNat), rest)
  else if lead < 0xc2 then (none, rest)
  else if lead < 0xe0 then continuation 0x80 0xbf 1 (lead.toNat % 32) rest
  else if lead = 0xe0 then continuation 0xa0 0xbf 2 0 rest
  else if lead = 0xed then continuation 0x80 0x9f 2 13 rest
  else if lead < 0xf0 then continuation 0x80 0xbf 2 (lead.toNat % 16) rest
  else if lead = 0xf0 then continuation 0x90 0xbf 3 0 rest
  else if lead < 0xf4 then continuation 0x80 0xbf 3 (lead.toNat % 8) rest
  else if lead = 0xf4 then continuation 0x80 0x8f 3 4 rest
  else (none, rest)

theorem continuation_length_le (low high : UInt8) (count bits : Nat) (bytes : List UInt8) :
    (continuation low high count bits bytes).2.length ≤ bytes.length := by
  fun_induction continuation low high count bits bytes <;> grind

theorem piece_length_le (lead : UInt8) (rest : List UInt8) :
    (piece lead rest).2.length ≤ rest.length := by
  unfold piece
  repeat' split
  all_goals first | exact Nat.le_refl _ | exact continuation_length_le ..

/-- Reads all pieces, in front of those already read, the last piece first. -/
def piecesOnto (read : List (Option Char)) : List UInt8 → List (Option Char)
  | [] => read
  | lead :: rest => piecesOnto ((piece lead rest).1 :: read) (piece lead rest).2
  termination_by bytes => bytes.length
  decreasing_by exact Nat.lt_succ_of_le (piece_length_le lead rest)

/-- The characters and bad pieces of a byte sequence. -/
def pieces (bytes : List UInt8) : List (Option Char) := (piecesOnto [] bytes).reverse

/-- The text of a byte sequence that is UTF-8 throughout. -/
def decode? (bytes : List UInt8) : Option String :=
  let all := pieces bytes
  if all.all Option.isSome then some (String.ofList (all.filterMap id)) else none

/-- The text of a byte sequence, with replacement characters for the bad pieces. -/
def decodeLossy (bytes : List UInt8) : String :=
  String.ofList ((pieces bytes).map fun character => character.getD '\ufffd')

end WordMachine.Text.Utf8
