import PhpRename.Command.Run

/-!
# The program

The program reads the directories that a command line speaks of, carries the command out on what
it has read, and then makes the directories so. Nothing is decided here.

* `main`: the program.
-/

namespace PhpRename.Program

/-- The content of a file. -/
def contentOf (bytes : ByteArray) : Disk.Content :=
  match String.fromUTF8? bytes with
  | some s => .text s
  | none => .bytes bytes.toList

/-- The bytes of a content. -/
def bytesOf : Disk.Content → ByteArray
  | .text s => s.toUTF8
  | .bytes bs => ⟨bs.toArray⟩

/-- The name that a path spells. -/
def nameOf (p : Path) : Disk.Name :=
  p.normalize.parts.filterMap fun
    | .name text => some text
    | _ => none

/-- Reads what a directory entry stands for, and all that it holds. A link is taken to lead
straight to where it leads in the end. -/
partial def load (d : Disk) (entry : IO.FS.DirEntry) : IO Disk := do
  let name := nameOf ⟨entry.path.toString⟩
  match (← entry.path.symlinkMetadata).type with
  | .dir =>
    (← entry.path.readDir).foldlM load (d.set name (.directory true))
  | .file => return d.set name (.file (contentOf (← IO.FS.readBinFile entry.path)) true)
  | .symlink =>
    try return d.set name (.link (← IO.FS.realPath entry.path).toString)
    catch _ => return d
  | .other => return d

/-- The entry of a directory that has a name. -/
def entryOf (name : Disk.Name) : IO.FS.DirEntry :=
  ⟨(Disk.Name.path name.dropLast).spelling, name.getLast?.getD ""⟩

/-- Reads what is at a path, if anything is, but not what is known already. Of the directories on
the way only that they are there. -/
def loadPath (d : Disk) (p : Path) : IO Disk := do
  let name := nameOf (Path.absoluteFrom d.workingDirectory p)
  if (d.node? name).isSome then return d
  let above := (Disk.empty name.dropLast).entries.filter fun e => (d.node? e.1).isNone
  let there ← above.filterM fun e => (entryOf e.1).path.pathExists
  let d := { d with entries := d.entries ++ there }
  if ← (entryOf name).path.pathExists then load d (entryOf name) else return d

/-- Reads all that a command line may speak of. -/
def loadAll (args : List String) : IO Disk := do
  let here : Path := ⟨(← IO.currentDir).toString⟩
  let name := nameOf here
  let start : Disk := ⟨name, (Disk.empty name.dropLast).entries⟩
  let d ← loadPath start here
  args.foldlM (fun d arg => if arg.startsWith "-" then return d else loadPath d ⟨arg⟩) d

/-- Puts a file in its place, in one step. -/
def store (name : Disk.Name) (content : Disk.Content) : IO Unit := do
  let place := (Disk.Name.path name).spelling
  let draft := place ++ ".draft"
  IO.FS.writeBinFile draft (bytesOf content)
  IO.FS.rename draft place

/-- Makes the directories so as they are in `after`, where they differ from `before`. -/
def save (before after : Disk) : IO Unit := do
  for (name, node) in after.entries do
    if node matches .directory _ ∧ (before.node? name).isNone then
      IO.FS.createDirAll (Disk.Name.path name).spelling
  for (name, node) in after.entries do
    match node with
    | .file content _ => if before.node? name ≠ some node then store name content
    | _ => pure ()
  for (name, node) in before.entries.reverse do
    if (after.node? name).isNone then
      match node with
      | .directory _ => IO.FS.removeDir (Disk.Name.path name).spelling
      | _ => IO.FS.removeFile (Disk.Name.path name).spelling

end PhpRename.Program

open PhpRename PhpRename.Program in
/-- The program: carries out a command line. -/
def main (args : List String) : IO UInt32 := do
  let before ← loadAll args
  let out := Command.runLine args before
  save before out.disk
  for line in out.lines do
    IO.println line
  match out.complaint? with
  | some c => IO.eprintln ("Error: " ++ c.message)
  | none => if out.exit = 2 then IO.eprintln (String.intercalate "\n" (Command.help none))
  return out.exit.toUInt32
