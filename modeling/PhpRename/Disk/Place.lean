import PhpRename.Disk.Basic

/-!
# Where paths lead

A path is followed on the disk from entry to entry, through symbolic links, of which it may meet
forty. A `..` leads out of the directory that has been reached, not back along the spelling.

* `Disk.place`: where a path leads.
-/

namespace PhpRename.Disk

/-- Where a path leads. -/
inductive Place where
  | taken (name : Name) (node : Node)
  /-- Nothing is there yet, but the directory for it is. -/
  | free (directory : Name) (last : String) (slash : Bool)
deriving Repr

/-- The longest name, in bytes. -/
def maxName : Nat := 255

/-- The length, in bytes, that the spelling of a path does not reach. -/
def maxSpelling : Nat := 4096

/-- The number of links that a path may lead through. -/
def maxLinks : Nat := 40

/-- Nothing but slashes is left of a path. -/
def onlySlashes (rest : List (List Char)) : Bool :=
  rest.all List.isEmpty

/-- Follows the pieces of a path from the directory `dir`. A link that is the last piece is
itself what the path leads to, unless `follow` is set. -/
def walk (d : Disk) (follow : Bool) (links : Nat) (dir : Name) :
    List (List Char) → Except Fault Place
  | [] =>
    match d.node? dir with
    | some node => .ok (.taken dir node)
    | none => .error .notFound
  | piece :: rest =>
    if piece = [] ∨ piece = ['.'] then walk d follow links dir rest
    else if piece = ['.', '.'] then walk d follow links dir.dropLast rest
    else
      let text := String.ofList piece
      let name := dir ++ [text]
      if maxName < text.utf8ByteSize then .error .nameTooLong
      else
        match d.node? name with
        | none => if onlySlashes rest then .ok (.free dir text (!rest.isEmpty)) else .error .notFound
        | some (.directory _) => walk d follow links name rest
        | some (.file content writable) =>
          if rest.isEmpty then .ok (.taken name (.file content writable)) else .error .notDirectory
        | some (.link target) =>
          if !follow && rest.isEmpty then .ok (.taken name (.link target))
          else if !follow && onlySlashes rest then .error .notDirectory
          else
            match links with
            | 0 => .error .tooManyLinks
            | links + 1 =>
              let start := if (⟨target⟩ : Path).isAbsolute then [] else dir
              walk d follow links start (Path.segments target.toList ++ rest)
termination_by pieces => (links, pieces.length)

/-- Where a path leads. -/
def place (d : Disk) (follow : Bool) (p : Path) : Except Fault Place :=
  if p.spelling.toList.contains '\x00' then .error .nulInName
  else if p.spelling = "" then .error .notFound
  else if maxSpelling ≤ p.spelling.utf8ByteSize then .error .nameTooLong
  else
    let start := if p.isAbsolute then [] else d.here
    d.walk follow maxLinks start (Path.segments p.spelling.toList)

/-- What a path leads to through all links. -/
def find (d : Disk) (p : Path) : Except Fault (Name × Node) :=
  match d.place true p with
  | .ok (.taken name node) => .ok (name, node)
  | .ok (.free ..) => .error .notFound
  | .error fault => .error fault

/-- The path leads to something. -/
def hasEntry (d : Disk) (p : Path) : Bool :=
  match d.find p with
  | .ok _ => true
  | .error _ => false

/-- The path leads to a directory. -/
def hasDirectory (d : Disk) (p : Path) : Bool :=
  match d.find p with
  | .ok (_, .directory _) => true
  | _ => false

/-- The path leads to a file. -/
def hasFile (d : Disk) (p : Path) : Bool :=
  match d.find p with
  | .ok (_, .file ..) => true
  | _ => false

/-- The path leads to something that may not be changed. -/
def isLocked (d : Disk) (p : Path) : Bool :=
  match d.find p with
  | .ok (_, .file _ writable) | .ok (_, .directory writable) => !writable
  | _ => false

end PhpRename.Disk
