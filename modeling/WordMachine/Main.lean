import WordMachine.Tool

/-!
# The command line

`asm`, `disasm`, `strings` and `emu`, chosen by the first argument. All files that the arguments
or the lines of a debug session could mean are located and read beforehand, and standard input is
read to its end; what the tool then does is worked out by `Tool.run`, and what it printed and wrote
is carried out at last.
-/

namespace WordMachine

/-- The number of steps after which the emulator gives up. -/
def stepBudget : Nat := 1 <<< 62

/-- The paths at which a tool might look for a file or leave one: its arguments and the words of its
input, and what it makes of them or takes if none is given. -/
def possiblePaths (arguments : List String) (stdin : List UInt8) : List String :=
  let defaults : DumpPaths := {}
  [defaults.snapshot, defaults.core] ++ arguments ++ arguments.map Tool.imagePath ++
    (Text.words (Text.Utf8.decodeLossy stdin).toList).map String.ofList

/-- Reads bytes until there are no more. -/
partial def readAll (stream : IO.FS.Stream) (read : List UInt8) : IO (List UInt8) := do
  let bytes ← stream.read 65536
  if bytes.isEmpty then return read.reverse
  readAll stream (bytes.data.toList.reverse ++ read)

/-- Cuts a path behind the folder that its file is in. -/
def splitPath (path : String) : String × String :=
  let reversed := path.toList.reverse
  let parents := (reversed.dropWhile (· != '/')).reverse
  (if parents.isEmpty then "./" else String.ofList parents,
    String.ofList (reversed.takeWhile (· != '/')).reverse)

/-- The file that a path leads to, by the name that it has for all paths. A file that is still to be
written has a name if its folder is there. -/
def locateFile (path : String) : IO (Except FileError String) := do
  try
    return .ok (← IO.FS.realPath path).toString
  catch _ =>
    let (parent, name) := splitPath path
    if ["", ".", ".."].contains name then return .error .notFound
    try
      let parent ← IO.FS.realPath parent
      return .ok s!"{parent}/{name}"
    catch _ => return .error .notFound

/-- The folder with those files among the given paths that can be read, and the host that tells where
the paths lead. -/
def loadFolder (paths : List String) : IO (Folder × Host) := do
  let located ← paths.mapM fun path => return (path, ← locateFile path)
  let folder ← located.foldlM
    (fun folder (_, place) => do
      match place with
      | .error _ => return folder
      | .ok name =>
        try
          let bytes ← IO.FS.readBinFile name
          return folder.put name bytes.data.toList
        catch _ => return folder)
    Folder.empty
  let locate (path : String) := (located.lookup path).getD (.error .notFound)
  return (folder, ⟨locate, fun _ => none⟩)

/-- Runs a tool on the files around it. -/
def runTool (tool : Tool) (arguments : List String) : IO UInt32 := do
  let stdin ← if tool = .emulate then readAll (← IO.getStdin) [] else pure []
  let (before, host) ← loadFolder (possiblePaths arguments stdin)
  match tool.run stepBudget arguments before stdin host with
  | none =>
    IO.eprintln "the program does not end"
    return 1
  | some result =>
    IO.print result.stdout
    IO.eprint result.stderr
    for (name, bytes) in result.folder.changesSince before do
      IO.FS.writeBinFile name ⟨bytes.toArray⟩
    return if result.succeeded then 0 else 1

end WordMachine

/-- Runs the tool that the first argument names. -/
def main (arguments : List String) : IO UInt32 := do
  match arguments with
  | name :: rest =>
    match WordMachine.Tool.ofName? name with
    | some tool => WordMachine.runTool tool rest
    | none =>
      IO.eprintln "unknown tool"
      return 1
  | [] =>
    IO.eprintln "usage: asm | disasm | strings | emu"
    return 1
