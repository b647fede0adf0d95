import WordMachine.Image

/-!
# Folders

The files that a session or a tool can reach, by their names. Which of them a path leads to is not
for the files to say but for the `Host` that they are on: paths can lead to the same file or to none
at all, and the program does not change where they lead. A file that is written is created or
replaced, and is then read as it was written (`read_write`).
-/

namespace WordMachine

/-- Named files and their bytes. No name occurs twice. -/
structure Folder where
  files : List (String × List UInt8)
  deriving DecidableEq, Repr

/-- What can go wrong with a path. -/
inductive FileError where
  /-- There is no such file, or no folder to put it in. -/
  | notFound
  /-- Anything else that the host objects to, in its own words. -/
  | other (message : String)
  deriving DecidableEq, Repr

/-- The wording of a file error. -/
def FileError.message : FileError → String
  | .notFound => "No such file or directory (os error 2)"
  | .other message => message

/-- What the program leaves to the system that it runs on, and to the libraries there. -/
structure Host where
  /-- The name of the file that a path leads to, or why it leads to none. -/
  locate : String → Except FileError String
  /-- What is said about the bytes of a file that hold no snapshot. -/
  explain : List UInt8 → Option String

namespace Folder

/-- A folder without files. -/
def empty : Folder := ⟨[]⟩

/-- The name that a path consists of, perhaps behind `./`. A path through other folders, or from the
root of all folders, is no name. -/
def fileName? (path : String) : Option String :=
  match (path.splitOn "/").reverse with
  | [] => none
  | name :: parents =>
    if ["", ".", ".."].contains name then none
    else if parents.all (fun part => part == "" || part == ".") && parents.getLast? != some "" then some name
    else none

end Folder

/-- The host on which there is one folder and none besides it, neither inside it nor around it, and
on which snapshots are not explained. -/
def Host.flat : Host where
  locate path :=
    match Folder.fileName? path with
    | some name => .ok name
    | none => .error .notFound
  explain _ := none

namespace Folder

/-- The bytes of the file with a name. -/
def find? (folder : Folder) (name : String) : Option (List UInt8) := folder.files.lookup name

/-- The folder in which the file with a name has the given bytes. -/
def put (folder : Folder) (name : String) (bytes : List UInt8) : Folder :=
  if (folder.find? name).isSome then
    ⟨folder.files.map fun (other, old) => if other = name then (other, bytes) else (other, old)⟩
  else ⟨folder.files ++ [(name, bytes)]⟩

/-- Reads the file that a path leads to. -/
def read (folder : Folder) (path : String) (host : Host := .flat) : Except FileError (List UInt8) :=
  match host.locate path with
  | .error error => .error error
  | .ok name =>
    match folder.find? name with
    | some bytes => .ok bytes
    | none => .error .notFound

/-- Writes the file that a path leads to. -/
def write (folder : Folder) (path : String) (bytes : List UInt8) (host : Host := .flat) :
    Except FileError Folder :=
  match host.locate path with
  | .error error => .error error
  | .ok name => .ok (folder.put name bytes)

/-- The files that are new or have other bytes than in an earlier state of the folder. -/
def changesSince (folder earlier : Folder) : List (String × List UInt8) :=
  folder.files.filter fun (name, bytes) => earlier.find? name != some bytes

theorem lookup_map_replace (files : List (String × List UInt8)) (name other : String)
    (bytes : List UInt8) :
    (files.map fun (found, old) => if found = name then (found, bytes) else (found, old)).lookup other =
      if other = name then (files.lookup other).map fun _ => bytes else files.lookup other := by
  induction files with
  | nil => simp
  | cons file files ih =>
    obtain ⟨found, old⟩ := file
    by_cases replaced : found = name
    · subst replaced
      by_cases here : other = found
      · subst here; simp
      · simp_all [List.lookup_cons, beq_eq_false_iff_ne.2 here]
    · by_cases here : other = found
      · subst here; simp [replaced]
      · simp [List.lookup_cons, beq_eq_false_iff_ne.2 here, replaced, ih]

/-- A file that is put into a folder is found there, and the others are found as before. -/
theorem find?_put (folder : Folder) (name other : String) (bytes : List UInt8) :
    (folder.put name bytes).find? other = if other = name then some bytes else folder.find? other := by
  simp only [put]
  split
  · next h =>
    simp only [find?, lookup_map_replace]
    split
    · next heq => subst heq; simpa [find?, Option.isSome_iff_exists] using h
    · rfl
  · next h =>
    simp only [find?, List.lookup_append]
    split
    · next heq =>
      subst heq
      simp only [find?, Bool.not_eq_true, Option.isSome_eq_false_iff, Option.isNone_iff_eq_none] at h
      simp [h]
    · next hne => simp [List.lookup_cons, beq_eq_false_iff_ne.2 hne]

variable {folder after : Folder} {path other name : String} {bytes : List UInt8} {host : Host}

/-- What is written to a path goes to the file that the path leads to. -/
theorem write_eq_ok_iff :
    folder.write path bytes host = .ok after ↔
      ∃ name, host.locate path = .ok name ∧ after = folder.put name bytes := by
  unfold write
  cases host.locate path <;> simp [eq_comm]

/-- What is written to a path is read from it. -/
theorem read_write (h : folder.write path bytes host = .ok after) :
    after.read path host = .ok bytes := by
  obtain ⟨name, hname, rfl⟩ := write_eq_ok_iff.mp h
  simp [read, hname, find?_put]

/-- What is written to one file is not seen in another. -/
theorem read_of_write_of_ne (h : folder.write path bytes host = .ok after)
    (hne : host.locate other ≠ host.locate path) :
    after.read other host = folder.read other host := by
  obtain ⟨name, hname, rfl⟩ := write_eq_ok_iff.mp h
  unfold read
  cases hother : host.locate other with
  | error error => rfl
  | ok found =>
    have hfound : found ≠ name := by
      rintro rfl
      exact hne (hother.trans hname.symm)
    simp only [find?_put, if_neg hfound]

end Folder

/-- Why an image could not be read. -/
inductive ImageError where
  | file (error : FileError)
  | fault (fault : Fault)
  deriving DecidableEq, Repr

namespace Image

/-- Reads the image that a path leads to. -/
def load (folder : Folder) (path : String) (host : Host := .flat) : Except ImageError (List Word) :=
  match folder.read path host with
  | .error error => .error (.file error)
  | .ok bytes => (decode bytes).mapError .fault

/-- Writes words as an image. -/
def save (folder : Folder) (path : String) (words : List Word) (host : Host := .flat) :
    Except FileError Folder :=
  folder.write path (encode words) host

end Image

end WordMachine
