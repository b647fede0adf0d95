import WordMachine.Json.Text

/-!
# Numbers in JSON

A natural number without sign, fraction and exponent is read as such. Every other number is read
to its end and reported as `other`: nothing here wants it, but it must be well formed, and it must
not be too large for a double.

How large is too large depends on how the number is rounded. The first digits, as many as fit
into 64 bits, make the significand; it and the power of ten are each rounded to 53 bits, and their
product must round to less than `2 ^ 1024`.
-/

namespace WordMachine.Json

/-- A number as far as it matters here. -/
inductive Number where
  | natural (value : Nat)
  /-- A number with a sign, a fraction or an exponent, or one of more than 64 bits. -/
  | other
  deriving DecidableEq, Repr

/-- The byte is a decimal digit. -/
def isDigit (byte : UInt8) : Bool := 0x30 ≤ byte && byte ≤ 0x39

/-- The value of a decimal digit. -/
def digitValue (byte : UInt8) : Nat := byte.toNat - 0x30

/-- Adds digits to a significand as long as it stays below `2 ^ 64`. Returns the digits that did
not fit as well. -/
def absorb (significand : Nat) : List UInt8 → Nat × List UInt8
  | [] => (significand, [])
  | digit :: digits =>
    let next := significand * 10 + digitValue digit
    if next < UInt64.size then absorb next digits else (significand, digit :: digits)

/-- The nearest number with at most 53 significant bits; of two, the one with an even last bit. -/
def roundTo53Bits (n : Nat) : Nat :=
  if n < 1 <<< 53 then n
  else
    let unit := 1 <<< (n.log2 - 52)
    let quotient := n / unit
    let twiceRest := 2 * (n % unit)
    let up := unit < twiceRest || (twiceRest = unit && quotient % 2 = 1)
    (if up then quotient + 1 else quotient) * unit

/-- The number `significand * 10 ^ exponent` is too large for a double. -/
def isTooLarge (significand : Nat) (exponent : Int) : Bool :=
  if significand = 0 || exponent < 0 then false
  else if 308 < exponent then true
  else
    (1 <<< 1024) - (1 <<< 970) ≤
      roundTo53Bits significand * roundTo53Bits (Nat.pow 10 exponent.toNat)

/-- A number with a fraction or an exponent, or one that is too long, at its end. -/
def finish (significand : Nat) (exponent : Int) (rest : List UInt8) :
    Except Problem (Number × List UInt8) :=
  if isTooLarge significand exponent then .error .malformed else .ok (.other, rest)

/-- What is wrong when a digit should come and does not. -/
def missingDigit (rest : List UInt8) : Problem := if rest.isEmpty then .truncated else .malformed

/-- The size that the digits of an exponent write, which does not grow further once it is
`2 ^ 31` or more. By then it decides alone: no document has that many digits to make up for it. -/
def exponentSize (digits : List UInt8) : Nat :=
  digits.foldl (fun size digit => if size < 1 <<< 31 then size * 10 + digitValue digit else size) 0

/-- Reads an exponent behind its letter. -/
def readExponent (significand : Nat) (exponent : Int) (bytes : List UInt8) :
    Except Problem (Number × List UInt8) :=
  let (negative, unsigned) :=
    match bytes with
    | 0x2b :: rest => (false, rest)
    | 0x2d :: rest => (true, rest)
    | _ => (false, bytes)
  let digits := unsigned.takeWhile isDigit
  let rest := unsigned.dropWhile isDigit
  if digits.isEmpty then .error (missingDigit rest)
  else
    let size := exponentSize digits
    finish significand (if negative then exponent - size else exponent + size) rest

/-- Reads a fraction behind its point. -/
def readFraction (significand : Nat) (exponent : Int) (bytes : List UInt8) :
    Except Problem (Number × List UInt8) :=
  let digits := bytes.takeWhile isDigit
  let rest := bytes.dropWhile isDigit
  if digits.isEmpty then .error (missingDigit rest)
  else
    let (significand, left) := absorb significand digits
    let exponent := exponent - (digits.length - left.length : Nat)
    match rest with
    | 0x65 :: rest | 0x45 :: rest => readExponent significand exponent rest
    | _ => finish significand exponent rest

/-- Reads a number from its first digit on. -/
def readUnsigned (negative : Bool) (bytes : List UInt8) : Except Problem (Number × List UInt8) :=
  let digits := bytes.takeWhile isDigit
  let rest := bytes.dropWhile isDigit
  match digits with
  | [] => .error (missingDigit rest)
  | 0x30 :: _ :: _ => .error .malformed
  | _ =>
    let (significand, left) := absorb 0 digits
    match rest with
    | 0x2e :: rest => readFraction significand left.length rest
    | 0x65 :: rest | 0x45 :: rest => readExponent significand left.length rest
    | _ =>
      if !left.isEmpty then finish significand left.length rest
      else .ok (if negative then .other else .natural significand, rest)

/-- Reads a number from its first byte on, which may be a minus sign. -/
def readNumber : List UInt8 → Except Problem (Number × List UInt8)
  | 0x2d :: rest => readUnsigned true rest
  | bytes => readUnsigned false bytes

/-- Passes over an exponent behind its letter. -/
def skipExponent (bytes : List UInt8) : Except Problem (List UInt8) :=
  let unsigned :=
    match bytes with
    | 0x2b :: rest | 0x2d :: rest => rest
    | _ => bytes
  if (unsigned.takeWhile isDigit).isEmpty then .error .malformed else .ok (unsigned.dropWhile isDigit)

/-- Passes over a number from its first digit on. A number that ends too early is malformed, at
the end of the document too, and there is no limit on its size. -/
def skipUnsigned (bytes : List UInt8) : Except Problem (List UInt8) :=
  match bytes.takeWhile isDigit with
  | [] | 0x30 :: _ :: _ => .error .malformed
  | _ =>
    match bytes.dropWhile isDigit with
    | 0x2e :: rest =>
      if (rest.takeWhile isDigit).isEmpty then .error .malformed
      else
        match rest.dropWhile isDigit with
        | 0x65 :: rest | 0x45 :: rest => skipExponent rest
        | rest => .ok rest
    | 0x65 :: rest | 0x45 :: rest => skipExponent rest
    | rest => .ok rest

end WordMachine.Json
