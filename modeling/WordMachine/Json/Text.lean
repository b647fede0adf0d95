import WordMachine.Text.Utf8

/-!
# Texts in JSON

Reading from bytes, left to right, and saying at the first byte that will not do what kind of
problem it is. This module has what all readers share and the reader of quoted texts.

A text that nobody will look at is read less strictly (`skipText`): its escapes must have the right
shape, but surrogates need not pair up and its bytes need not be UTF-8.
-/

namespace WordMachine.Json

/-- Why a JSON document is not what was asked for. -/
inductive Problem where
  /-- It is no JSON. -/
  | malformed
  /-- It is JSON so far, but not of the wanted shape. -/
  | mismatch
  /-- It ends too early. -/
  | truncated
  deriving DecidableEq, Repr

/-- The byte is a blank between tokens. -/
def isBlank (byte : UInt8) : Bool := byte = 0x20 || byte = 0x0a || byte = 0x09 || byte = 0x0d

/-- The bytes from the first one that is no blank. -/
def skipBlank (bytes : List UInt8) : List UInt8 := bytes.dropWhile isBlank

/-- Where a reader stands within a quoted text. -/
inductive TextMode where
  | plain
  /-- Behind a backslash. -/
  | escape
  /-- Within the four digits of a code unit, of which some are read, last one first. The code unit
  may have to follow the first half of a surrogate pair. -/
  | unit (half : Option Nat) (digits : List UInt8)
  /-- Behind the first half of a surrogate pair. -/
  | half (first : Nat)
  /-- Behind the first half of a surrogate pair and a backslash. -/
  | halfEscape (first : Nat)

/-- The byte that an escape of one letter stands for. -/
def simpleEscape? (byte : UInt8) : Option UInt8 :=
  match byte.toNat with
  | 0x22 => some 0x22
  | 0x5c => some 0x5c
  | 0x2f => some 0x2f
  | 0x62 => some 0x08
  | 0x66 => some 0x0c
  | 0x6e => some 0x0a
  | 0x72 => some 0x0d
  | 0x74 => some 0x09
  | _ => none

/-- The value of a hexadecimal digit. -/
def hexDigit? (byte : UInt8) : Option Nat :=
  if 0x30 ≤ byte && byte ≤ 0x39 then some (byte.toNat - 0x30)
  else if 0x41 ≤ byte && byte ≤ 0x46 then some (byte.toNat - 0x37)
  else if 0x61 ≤ byte && byte ≤ 0x66 then some (byte.toNat - 0x57)
  else none

/-- The number that hexadecimal digits write, the last digit first. -/
def hexNumber? : List UInt8 → Option Nat
  | [] => some 0
  | digit :: digits =>
    match hexNumber? digits, hexDigit? digit with
    | some high, some low => some (high * 16 + low)
    | _, _ => none

/-- What a code unit leads to: the bytes it adds to the text and the mode behind it. -/
def unitStep (half : Option Nat) (unit : Nat) : Except Problem (List UInt8 × TextMode) :=
  let isFirst := 0xd800 ≤ unit && unit ≤ 0xdbff
  let isSecond := 0xdc00 ≤ unit && unit ≤ 0xdfff
  match half with
  | some first =>
    if isSecond then
      let code := 0x10000 + (first - 0xd800) * 0x400 + (unit - 0xdc00)
      .ok (String.utf8EncodeChar (Char.ofNat code), .plain)
    else .error .malformed
  | none =>
    if isFirst then .ok ([], .half unit)
    else if isSecond then .error .malformed
    else .ok (String.utf8EncodeChar (Char.ofNat unit), .plain)

/-- Reads the rest of a quoted text behind the bytes already read, last byte first. Returns the
text and what follows the closing quote. -/
def textOnto (read : List UInt8) : TextMode → List UInt8 → Except Problem (List UInt8 × List UInt8)
  | _, [] => .error .truncated
  | .plain, byte :: rest =>
    if byte = 0x22 then
      if (Text.Utf8.decode? read.reverse).isSome then .ok (read.reverse, rest) else .error .malformed
    else if byte = 0x5c then textOnto read .escape rest
    else if byte < 0x20 then .error .malformed
    else textOnto (byte :: read) .plain rest
  | .escape, byte :: rest =>
    if byte = 0x75 then textOnto read (.unit none []) rest
    else
      match simpleEscape? byte with
      | some meant => textOnto (meant :: read) .plain rest
      | none => .error .malformed
  | .unit half digits, byte :: rest =>
    if digits.length < 3 then textOnto read (.unit half (byte :: digits)) rest
    else
      match hexNumber? (byte :: digits) with
      | none => .error .malformed
      | some unit =>
        match unitStep half unit with
        | .error problem => .error problem
        | .ok (meant, mode) => textOnto (meant.reverse ++ read) mode rest
  | .half first, byte :: rest =>
    if byte = 0x5c then textOnto read (.halfEscape first) rest else .error .malformed
  | .halfEscape first, byte :: rest =>
    if byte = 0x75 then textOnto read (.unit (some first) []) rest else .error .malformed

/-- Reads a text behind its opening quote. -/
def readText (bytes : List UInt8) : Except Problem (List UInt8 × List UInt8) := textOnto [] .plain bytes

/-- Passes over the rest of a quoted text, and returns what follows the closing quote. -/
def skipTextIn : TextMode → List UInt8 → Except Problem (List UInt8)
  | _, [] => .error .truncated
  | .escape, byte :: rest =>
    if byte = 0x75 then skipTextIn (.unit none []) rest
    else if (simpleEscape? byte).isSome then skipTextIn .plain rest
    else .error .malformed
  | .unit half digits, byte :: rest =>
    if digits.length < 3 then skipTextIn (.unit half (byte :: digits)) rest
    else if (hexNumber? (byte :: digits)).isSome then skipTextIn .plain rest
    else .error .malformed
  | _, byte :: rest =>
    if byte = 0x22 then .ok rest
    else if byte = 0x5c then skipTextIn .escape rest
    else if byte < 0x20 then .error .malformed
    else skipTextIn .plain rest

/-- Passes over a text behind its opening quote. -/
def skipText (bytes : List UInt8) : Except Problem (List UInt8) := skipTextIn .plain bytes

/-- Passes over the rest of a word such as `null`. -/
def expect : List UInt8 → List UInt8 → Except Problem (List UInt8)
  | [], rest => .ok rest
  | _ :: _, [] => .error .truncated
  | wanted :: more, byte :: rest => if byte = wanted then expect more rest else .error .malformed

end WordMachine.Json
