/-!
# Numerals

Unsigned numbers below a limit as text, in any radix up to sixteen. `ofDigits?` reads one or more
digits and nothing else; a leading plus sign and the radix marks `0b`, `0o` and `0x` are read on top
of it. A numeral may be of any length, since more digits never make a number smaller: reading ends
at the digit that takes it to the limit.
-/

namespace WordMachine.Text.Numeral

/-- The character is one of the ten decimal digits. -/
def isDecimalDigit (c : Char) : Bool := '0' ≤ c && c ≤ '9'

/-- The value of a character as a hexadecimal digit, in either case. -/
def hexDigit? (c : Char) : Option Nat :=
  if isDecimalDigit c then some (c.toNat - '0'.toNat)
  else if 'a' ≤ c && c ≤ 'f' then some (c.toNat - 'a'.toNat + 10)
  else if 'A' ≤ c && c ≤ 'F' then some (c.toNat - 'A'.toNat + 10)
  else none

/-- The value of a character as a digit of a radix. -/
def digit? (radix : Nat) (c : Char) : Option Nat := (hexDigit? c).filter (· < radix)

/-- Reads digits behind a number already read, as long as the number stays below the limit. -/
def digitsFrom? (limit radix value : Nat) : List Char → Option Nat
  | [] => some value
  | c :: rest =>
    match digit? radix c with
    | some digit =>
      let next := value * radix + digit
      if next < limit then digitsFrom? limit radix next rest else none
    | none => none

/-- The number written by one or more digits, if it is below the limit. -/
def ofDigits? (limit radix : Nat) (text : List Char) : Option Nat :=
  if text.isEmpty then none else digitsFrom? limit radix 0 text

/-- The number written by digits, which may follow a plus sign. -/
def ofSigned? (limit radix : Nat) : List Char → Option Nat
  | '+' :: rest => ofDigits? limit radix rest
  | text => ofDigits? limit radix text

/-- The number written in radix two, eight or sixteen behind its mark, or in decimal without one.
A plus sign may stand in front of the digits, that is, behind the mark. -/
def ofMarked? (limit : Nat) : List Char → Option Nat
  | '0' :: 'b' :: rest => ofSigned? limit 2 rest
  | '0' :: 'o' :: rest => ofSigned? limit 8 rest
  | '0' :: 'x' :: rest => ofSigned? limit 16 rest
  | text => ofSigned? limit 10 text

end WordMachine.Text.Numeral
