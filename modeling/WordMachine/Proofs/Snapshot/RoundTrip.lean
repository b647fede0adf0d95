import WordMachine.Proofs.Json.Reading
import WordMachine.Snapshot.Reader
import WordMachine.Snapshot.Writer

/-!
# Snapshots are read as they were written

The text of a snapshot is a list of keys with their values, and each key is found and read together
with its value whatever was read before (`readFields_keyBytes`). Every snapshot comes back this way,
whether a machine can take it or not (`ofBytes_toBytes`).
-/

namespace WordMachine.Snapshot

/-! ## Writing -/

/-- The name of a field. -/
def Field.name : Field → List UInt8
  | .pc => Text.Utf8.encode "pc"
  | .registers => Text.Utf8.encode "registers"
  | .stack => Text.Utf8.encode "stack"

/-- The name of a field with its colon, on a line of its own. There is a comma in front of all
fields but the first. -/
def keyBytes (isFirst : Bool) (field : Field) : List UInt8 :=
  (if isFirst then [] else [0x2c]) ++ ([0x0a, 0x20, 0x20, 0x22] ++ (field.name ++ [0x22, 0x3a]))

/-- Words on lines of their own are written with commas between them. -/
theorem encode_intercalate (word : Word) (words : List Word) :
    Text.Utf8.encode (String.intercalate ",\n"
        ((word :: words).map fun word => "    " ++ toString word)) =
      [0x20, 0x20, 0x20, 0x20] ++ (Json.decimal word.toNat ++ Json.itemsBytes false words) := by
  induction words generalizing word with
  | nil =>
    rw [List.map_cons, List.map_nil, String.intercalate_singleton, Text.Utf8.encode_append,
      Json.itemsBytes, List.append_nil]
    rfl
  | cons second words ih =>
    have hrest := ih second
    rw [List.map_cons] at hrest
    rw [List.map_cons, List.map_cons, String.intercalate_cons_cons, Text.Utf8.encode_append,
      Text.Utf8.encode_append, Text.Utf8.encode_append, hrest, List.append_assoc, List.append_assoc]
    rfl

/-- A list of words is written with one word on each line. -/
theorem encode_listText (words : List Word) :
    Text.Utf8.encode (listText words) = Json.listBytes words := by
  cases words with
  | nil => rfl
  | cons word words =>
    rw [listText, if_neg (by rw [List.isEmpty_cons]; exact Bool.false_ne_true),
      Text.Utf8.encode_append, Text.Utf8.encode_append, encode_intercalate, Json.listBytes,
      Json.itemsBytes, Json.itemBytes]
    simp only [List.append_assoc]
    rfl

/-- A snapshot is written field by field. -/
theorem toBytes_eq (snapshot : Snapshot) :
    snapshot.toBytes =
      0x7b :: (keyBytes true .pc ++ 0x20 :: (Json.decimal snapshot.pc.toNat ++
        (keyBytes false .registers ++ 0x20 :: (Json.listBytes snapshot.registers.toList ++
          (keyBytes false .stack ++ 0x20 :: (Json.listBytes snapshot.stack ++
            [0x0a, 0x7d, 0x0a])))))) := by
  have hpc : Text.Utf8.encode (toString snapshot.pc) = Json.decimal snapshot.pc.toNat := rfl
  rw [toBytes, text]
  simp only [Text.Utf8.encode_append, encode_listText, hpc, List.append_assoc]
  rfl

/-! ## Reading -/

/-- The name of a field is a text without escapes. -/
theorem Field.name_plain (field : Field) :
    ∀ byte ∈ field.name, ((0x20 : UInt8) ≤ byte ∧ byte < 0x80) ∧ byte ≠ 0x22 ∧ byte ≠ 0x5c := by
  have hall : field.name.all (fun byte =>
      decide (((0x20 : UInt8) ≤ byte ∧ byte < 0x80) ∧ byte ≠ 0x22 ∧ byte ≠ 0x5c)) = true := by
    cases field <;> rfl
  exact fun byte hbyte => of_decide_eq_true (List.all_eq_true.mp hall byte hbyte)

theorem Field.ofName?_name (field : Field) : ofName? field.name = some field := by
  cases field with
  | pc | registers | stack => decide

/-- A key that was written is found. -/
theorem nextKey?_keyBytes (isFirst : Bool) (field : Field) (rest : List UInt8) :
    nextKey? isFirst (keyBytes isFirst field ++ rest) =
      .ok (some (field.name ++ 0x22 :: 0x3a :: rest)) := by
  have hkey : keyBytes isFirst field ++ rest = (if isFirst then [] else [0x2c]) ++
      ([0x0a, 0x20, 0x20, 0x22] ++ (field.name ++ 0x22 :: 0x3a :: rest)) := by
    rw [keyBytes, List.append_assoc, List.append_assoc, List.append_assoc]
    rfl
  rw [hkey]
  cases isFirst <;> rfl

variable {draft after : Draft} {field : Field} {value rest : List UInt8}

/-- A field that was not read before is read with its value. -/
theorem readFields_keyBytes (isFirst : Bool) (fuel : Nat) (hnew : draft.has field = false)
    (hread : draft.readField field value = .ok (after, rest)) :
    readFields isFirst draft (fuel + 1) (keyBytes isFirst field ++ value) =
      readFields false after fuel rest := by
  have hname : Json.readText (field.name ++ 0x22 :: 0x3a :: value) =
      .ok (field.name, 0x3a :: value) :=
    Json.readText_plain field.name_plain _
  rw [readFields, nextKey?_keyBytes]
  change (Json.readText _ >>= _) = _
  rw [hname]
  simp only [bind, Except.bind, field.ofName?_name, hnew]
  change (draft.readField field value >>= _) = _
  rw [hread]
  rfl

/-- The name of a field separates it from the value before it. -/
theorem separates_keyBytes (field : Field) (rest : List UInt8) :
    Json.Separates (keyBytes false field ++ rest) :=
  ⟨_, _, rfl, .inl rfl⟩

/-- The three fields are read one after the other. -/
theorem readFields_fields (snapshot : Snapshot) (fuel : Nat) :
    readFields true {} (fuel + 4)
        (keyBytes true .pc ++ 0x20 :: (Json.decimal snapshot.pc.toNat ++
          (keyBytes false .registers ++ 0x20 :: (Json.listBytes snapshot.registers.toList ++
            (keyBytes false .stack ++ 0x20 :: (Json.listBytes snapshot.stack ++
              [0x0a, 0x7d, 0x0a])))))) =
      .ok (⟨some snapshot.pc, some snapshot.registers, some snapshot.stack⟩,
        [0x0a, 0x7d, 0x0a]) := by
  have hpc : ∀ rest, Draft.readField {} .pc
      (0x20 :: (Json.decimal snapshot.pc.toNat ++ (keyBytes false .registers ++ rest))) =
        .ok (⟨some snapshot.pc, none, none⟩, keyBytes false .registers ++ rest) := by
    intro rest
    have hread : Json.readWord (0x20 :: (Json.decimal snapshot.pc.toNat ++
        (keyBytes false .registers ++ rest))) =
          .ok (snapshot.pc, keyBytes false .registers ++ rest) :=
      Json.readWord_decimal [0x20] (List.all_eq_true.mp rfl) snapshot.pc
        (separates_keyBytes .registers rest)
    rw [Draft.readField, hread]
    rfl
  have hregisters : ∀ rest, Draft.readField ⟨some snapshot.pc, none, none⟩ .registers
      (0x20 :: (Json.listBytes snapshot.registers.toList ++ rest)) =
        .ok (⟨some snapshot.pc, some snapshot.registers, none⟩, rest) := by
    intro rest
    rw [Draft.readField, Json.readVector_listBytes snapshot.registers (by decide)]
    rfl
  have hstack : ∀ rest, Draft.readField ⟨some snapshot.pc, some snapshot.registers, none⟩ .stack
      (0x20 :: (Json.listBytes snapshot.stack ++ rest)) =
        .ok (⟨some snapshot.pc, some snapshot.registers, some snapshot.stack⟩, rest) := by
    intro rest
    rw [Draft.readField, Json.readWords_listBytes]
    rfl
  rw [readFields_keyBytes true (fuel + 3) rfl (hpc _),
    readFields_keyBytes false (fuel + 2) rfl (hregisters _),
    readFields_keyBytes false (fuel + 1) rfl (hstack _)]
  rfl

/-- Every snapshot is read as it was written. -/
theorem ofBytes_toBytes (snapshot : Snapshot) : ofBytes snapshot.toBytes = .ok snapshot := by
  rw [toBytes_eq]
  generalize hbody : keyBytes true .pc ++ _ = body
  have hlength : 3 ≤ body.length := by
    rw [← hbody, List.length_append]
    exact Nat.le_trans (by decide) (Nat.le_add_right _ _)
  obtain ⟨fuel, hfuel⟩ := Nat.exists_eq_add_of_le' hlength
  have hfields : readFields true {} (body.length + 1) body =
      .ok (⟨some snapshot.pc, some snapshot.registers, some snapshot.stack⟩,
        [0x0a, 0x7d, 0x0a]) := by
    rw [hfuel, ← hbody]
    exact readFields_fields snapshot fuel
  have hobject : ofObject body = .ok (snapshot, [0x0a]) := by
    rw [ofObject, hfields]
    rfl
  change (ofObject body >>= _) = _
  rw [hobject]
  rfl

end WordMachine.Snapshot
