import WordMachine.Fault

/-!
# Images

A flat binary image: two bytes for each word, the low byte first, with no header. Any word has an
image, also one that memory would refuse, and any even number of bytes is the image of one list
of words (`decode_encode`).
-/

namespace WordMachine

namespace Word

/-- The low byte of a word, then the high byte. -/
def toBytes (word : Word) : List UInt8 := [word.toUInt8, (word >>> 8).toUInt8]

/-- The word with the given low and high byte. -/
def ofBytes (low high : UInt8) : Word := high.toUInt16 <<< 8 ||| low.toUInt16

end Word

namespace Image

/-- The image of a list of words. -/
def encode (words : List Word) : List UInt8 := words.flatMap Word.toBytes

/-- The words of the byte pairs, put in front of those already read, last word first. A byte
without a partner is left out. -/
def pairsOnto (read : List Word) : List UInt8 → List Word
  | low :: high :: rest => pairsOnto (Word.ofBytes low high :: read) rest
  | _ => read

/-- The words of an image. They are not checked. -/
def decode (bytes : List UInt8) : Except Fault (List Word) :=
  if bytes.length % 2 = 0 then .ok (pairsOnto [] bytes).reverse
  else .error (.truncatedImage bytes.length)

end Image

end WordMachine
