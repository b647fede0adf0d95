import WordMachine.Snapshot
import WordMachine.Text.Utf8

/-!
# Writing snapshots

A snapshot is written as a JSON object with one item on each line, indented by two blanks a level,
and a newline at the end. A list without items is written as two brackets.
-/

namespace WordMachine.Snapshot

/-- A list of words, one on each line. -/
def listText (words : List Word) : String :=
  if words.isEmpty then "[]"
  else "[\n" ++ String.intercalate ",\n" (words.map fun word => "    " ++ toString word) ++ "\n  ]"

/-- A snapshot as text. -/
def text (snapshot : Snapshot) : String :=
  "\x7b\n  \"pc\": " ++ toString snapshot.pc ++
    ",\n  \"registers\": " ++ listText snapshot.registers.toList ++
    ",\n  \"stack\": " ++ listText snapshot.stack ++ "\n\x7d\n"

/-- The bytes of the file that holds a snapshot. -/
def toBytes (snapshot : Snapshot) : List UInt8 := Text.Utf8.encode snapshot.text

end WordMachine.Snapshot
