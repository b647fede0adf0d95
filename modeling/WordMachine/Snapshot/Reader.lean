import WordMachine.Json.Value
import WordMachine.Snapshot

/-!
# Reading snapshots

A snapshot is read from a JSON object with the fields `pc`, `registers` and `stack` in any order.
Fields with other names are passed over. The three values may also stand in a list, in this order.
-/

namespace WordMachine.Snapshot

/-- A field of a snapshot. -/
inductive Field where
  | pc
  | registers
  | stack
  deriving DecidableEq, Repr

/-- The field with the given name. -/
def Field.ofName? (name : List UInt8) : Option Field :=
  if name = Text.Utf8.encode "pc" then some .pc
  else if name = Text.Utf8.encode "registers" then some .registers
  else if name = Text.Utf8.encode "stack" then some .stack
  else none

/-- The fields read so far. -/
structure Draft where
  pc : Option Word := none
  registers : Option (Vector Word 8) := none
  stack : Option (List Word) := none

/-- The field has been read. -/
def Draft.has (draft : Draft) : Field → Bool
  | .pc => draft.pc.isSome
  | .registers => draft.registers.isSome
  | .stack => draft.stack.isSome

/-- The snapshot, once no field is missing. -/
def Draft.complete (draft : Draft) : Except Json.Problem Snapshot :=
  match draft.pc, draft.registers, draft.stack with
  | some pc, some registers, some stack => .ok ⟨pc, registers, stack⟩
  | _, _, _ => .error .mismatch

/-- Reads the value of a field. -/
def Draft.readField (draft : Draft) (field : Field) (bytes : List UInt8) :
    Except Json.Problem (Draft × List UInt8) :=
  match field with
  | .pc => do
    let (pc, rest) ← Json.readWord bytes
    return ({ draft with pc := some pc }, rest)
  | .registers => do
    let (registers, rest) ← Json.readVector 8 bytes
    return ({ draft with registers := some registers }, rest)
  | .stack => do
    let (stack, rest) ← Json.readWords bytes
    return ({ draft with stack := some stack }, rest)

/-- Goes to the next key of an object, if there is one, and behind its opening quote. The closing
bracket is left unread. -/
def nextKey? (isFirst : Bool) (bytes : List UInt8) : Except Json.Problem (Option (List UInt8)) :=
  match Json.skipBlank bytes with
  | [] => .error .truncated
  | 0x7d :: _ => .ok none
  | byte :: rest =>
    let start := if isFirst then some (byte :: rest) else if byte = 0x2c then some (Json.skipBlank rest) else none
    match start with
    | none => .error .malformed
    | some [] => .error .truncated
    | some (0x22 :: rest) => .ok (some rest)
    | some _ => .error .malformed

/-- Reads the colon behind a key. -/
def readColon (bytes : List UInt8) : Except Json.Problem (List UInt8) :=
  match Json.skipBlank bytes with
  | [] => .error .truncated
  | 0x3a :: rest => .ok rest
  | _ => .error .malformed

/-- Reads the fields of an object up to its closing bracket. A field that comes twice is a
mismatch, whatever follows its name. A key and its colon are at least three bytes, so that any fuel
above the number of bytes is enough, and what is left of it behind the colon is enough to pass over
the value. -/
def readFields (isFirst : Bool) (draft : Draft) :
    (fuel : Nat) → List UInt8 → Except Json.Problem (Draft × List UInt8)
  | 0, _ => .error .malformed
  | fuel + 1, bytes => do
    match ← nextKey? isFirst bytes with
    | none => return (draft, bytes)
    | some bytes =>
      let (name, rest) ← Json.readText bytes
      match Field.ofName? name with
      | none => readFields false draft fuel (← Json.skipValue fuel (← readColon rest))
      | some field =>
        if draft.has field then throw .mismatch
        let (draft, rest) ← draft.readField field (← readColon rest)
        readFields false draft fuel rest

/-- Reads a snapshot from an object, behind its opening bracket. -/
def ofObject (bytes : List UInt8) : Except Json.Problem (Snapshot × List UInt8) := do
  let (draft, rest) ← readFields true {} (bytes.length + 1) bytes
  let snapshot ← draft.complete
  match Json.skipBlank rest with
  | 0x7d :: rest => return (snapshot, rest)
  | _ => throw .truncated

/-- Goes to the next of the values in a list, which must be there. -/
def nextValue (isFirst : Bool) (bytes : List UInt8) : Except Json.Problem (List UInt8) := do
  match ← Json.nextItem? isFirst bytes with
  | some rest => return rest
  | none => throw .mismatch

/-- Reads a snapshot from a list, behind its opening bracket. -/
def ofItems (bytes : List UInt8) : Except Json.Problem (Snapshot × List UInt8) := do
  let (pc, rest) ← Json.readWord (← nextValue true bytes)
  let (registers, rest) ← Json.readVector 8 (← nextValue false rest)
  let (stack, rest) ← Json.readWords (← nextValue false rest)
  return (⟨pc, registers, stack⟩, ← Json.closeList rest)

/-- Reads the snapshot that a file holds. -/
def ofBytes (bytes : List UInt8) : Except Json.Problem Snapshot := do
  let (snapshot, rest) ←
    match Json.skipBlank bytes with
    | 0x5b :: rest => ofItems rest
    | 0x7b :: rest => ofObject rest
    | rest => throw (Json.unwanted rest)
  Json.atEnd rest
  return snapshot

end WordMachine.Snapshot
