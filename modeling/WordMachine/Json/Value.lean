import WordMachine.Json.Number

/-!
# Values in JSON

Passing over a value of any kind, and saying what is wrong with a value of the wrong kind. Values
may be nested to any depth.
-/

namespace WordMachine.Json

/-- What a value is nested in. -/
inductive Enclosing where
  | list
  | object
  deriving DecidableEq, Repr

/-- What comes next while a value is passed over. -/
inductive Expected where
  | value
  | key
  /-- A comma or the closing bracket. -/
  | separator
  deriving DecidableEq, Repr

/-- Passes over values until the outermost one is complete, and returns what follows it. Each
round but the last takes at least one byte, so that any fuel above the number of bytes is enough. -/
def skipFrom : (fuel : Nat) → List Enclosing → Expected → List UInt8 → Except Problem (List UInt8)
  | 0, _, _, _ => .error .malformed
  | fuel + 1, enclosing, .value, bytes =>
    match skipBlank bytes with
    | [] => .error .truncated
    | 0x6e :: rest => do skipFrom fuel enclosing .separator (← expect [0x75, 0x6c, 0x6c] rest)
    | 0x74 :: rest => do skipFrom fuel enclosing .separator (← expect [0x72, 0x75, 0x65] rest)
    | 0x66 :: rest => do skipFrom fuel enclosing .separator (← expect [0x61, 0x6c, 0x73, 0x65] rest)
    | 0x22 :: rest => do skipFrom fuel enclosing .separator (← skipText rest)
    | 0x2d :: rest => do skipFrom fuel enclosing .separator (← skipUnsigned rest)
    | 0x5b :: rest =>
      match skipBlank rest with
      | [] => .error .truncated
      | 0x5d :: rest => skipFrom fuel enclosing .separator rest
      | rest => skipFrom fuel (.list :: enclosing) .value rest
    | 0x7b :: rest =>
      match skipBlank rest with
      | [] => .error .truncated
      | 0x7d :: rest => skipFrom fuel enclosing .separator rest
      | rest => skipFrom fuel (.object :: enclosing) .key rest
    | byte :: rest =>
      if isDigit byte then do skipFrom fuel enclosing .separator (← skipUnsigned (byte :: rest))
      else .error .malformed
  | fuel + 1, enclosing, .key, bytes =>
    match skipBlank bytes with
    | [] => .error .truncated
    | 0x22 :: rest => do
      match skipBlank (← skipText rest) with
      | [] => throw .truncated
      | 0x3a :: rest => skipFrom fuel enclosing .value rest
      | _ => throw .malformed
    | _ => .error .malformed
  | _ + 1, [], .separator, bytes => .ok bytes
  | fuel + 1, inner :: enclosing, .separator, bytes =>
    match skipBlank bytes, inner with
    | [], _ => .error .truncated
    | 0x2c :: rest, .list => skipFrom fuel (inner :: enclosing) .value rest
    | 0x2c :: rest, .object => skipFrom fuel (inner :: enclosing) .key rest
    | 0x5d :: rest, .list => skipFrom fuel enclosing .separator rest
    | 0x7d :: rest, .object => skipFrom fuel enclosing .separator rest
    | _, _ => .error .malformed

/-- Passes over a value, and returns what follows it. The fuel is to be above the number of
bytes. -/
def skipValue (fuel : Nat) (bytes : List UInt8) : Except Problem (List UInt8) :=
  skipFrom fuel [] .value bytes

/-- What is wrong with a value that is not of the wanted kind: nothing but its kind, unless it is
malformed or truncated. Lists and objects are not looked into. -/
def unwanted : List UInt8 → Problem
  | [] => .truncated
  | 0x5b :: _ | 0x7b :: _ => .mismatch
  | 0x6e :: rest => problemOf (expect [0x75, 0x6c, 0x6c] rest)
  | 0x74 :: rest => problemOf (expect [0x72, 0x75, 0x65] rest)
  | 0x66 :: rest => problemOf (expect [0x61, 0x6c, 0x73, 0x65] rest)
  | 0x22 :: rest => problemOf (readText rest)
  | byte :: rest =>
    if byte = 0x2d || isDigit byte then problemOf (readNumber (byte :: rest)) else .malformed
where
  /-- The problem that reading met, and a mismatch if it met none. -/
  problemOf {α : Type} : Except Problem α → Problem
    | .ok _ => .mismatch
    | .error problem => problem

/-- Reads a word: a natural number below `65536`. -/
def readWord (bytes : List UInt8) : Except Problem (UInt16 × List UInt8) :=
  match skipBlank bytes with
  | [] => .error .truncated
  | byte :: rest =>
    if byte = 0x2d || isDigit byte then
      match readNumber (byte :: rest) with
      | .error problem => .error problem
      | .ok (.natural value, after) =>
        if value < 65536 then .ok (UInt16.ofNat value, after) else .error .mismatch
      | .ok (.other, _) => .error .mismatch
    else .error (unwanted (byte :: rest))

/-- Reads the opening bracket of a list. -/
def openList (bytes : List UInt8) : Except Problem (List UInt8) :=
  match skipBlank bytes with
  | 0x5b :: rest => .ok rest
  | rest => .error (unwanted rest)

/-- Goes to the next item of a list, if there is one. The closing bracket is left unread. -/
def nextItem? (isFirst : Bool) (bytes : List UInt8) : Except Problem (Option (List UInt8)) :=
  match skipBlank bytes with
  | [] => .error .truncated
  | 0x5d :: _ => .ok none
  | byte :: rest =>
    if isFirst then .ok (some (byte :: rest))
    else if byte = 0x2c then
      match skipBlank rest with
      | [] => .error .truncated
      | 0x5d :: _ => .error .malformed
      | rest => .ok (some rest)
    else .error .malformed

/-- Reads the closing bracket of a list. -/
def closeList (bytes : List UInt8) : Except Problem (List UInt8) :=
  match skipBlank bytes with
  | [] => .error .truncated
  | 0x5d :: rest => .ok rest
  | _ => .error .malformed

/-- Reads the words of a list up to its closing bracket, in front of those already read, the last
word first. -/
def wordsOnto (read : List UInt16) : (fuel : Nat) → List UInt8 → Except Problem (List UInt16 × List UInt8)
  | 0, _ => .error .malformed
  | fuel + 1, bytes =>
    match nextItem? read.isEmpty bytes with
    | .error problem => .error problem
    | .ok none => .ok (read, bytes)
    | .ok (some bytes) =>
      match readWord bytes with
      | .error problem => .error problem
      | .ok (word, rest) => wordsOnto (word :: read) fuel rest

/-- Reads a list of words of any length. -/
def readWords (bytes : List UInt8) : Except Problem (List UInt16 × List UInt8) := do
  let bytes ← openList bytes
  let (words, rest) ← wordsOnto [] (bytes.length + 1) bytes
  return (words.reverse, ← closeList rest)

/-- Reads the first words of a list, as many as asked for. -/
def firstWords : (count : Nat) → List UInt8 → Except Problem (Vector UInt16 count × List UInt8)
  | 0, bytes => .ok (#v[], bytes)
  | count + 1, bytes => do
    let (words, rest) ← firstWords count bytes
    match ← nextItem? (count = 0) rest with
    | none => throw .mismatch
    | some rest =>
      let (word, rest) ← readWord rest
      return (words.push word, rest)

/-- Reads a list with a fixed number of words. -/
def readVector (count : Nat) (bytes : List UInt8) : Except Problem (Vector UInt16 count × List UInt8) := do
  let (words, rest) ← firstWords count (← openList bytes)
  return (words, ← closeList rest)

/-- A document ends here. -/
def atEnd (bytes : List UInt8) : Except Problem Unit :=
  if (skipBlank bytes).isEmpty then .ok () else .error .malformed

end WordMachine.Json
