import PhpRename.Disk.Place

/-!
# Reading, writing and moving

* `Disk.read`: the text of a file.
* `Disk.rewrite`: replaces the text of a file in one step.
* `Disk.makeDirectories`: makes a directory and those that it lies in.
* `Disk.move`: moves a file or a directory to a free place.
* `Disk.write`, `Disk.allow`, `Disk.remove`, `Disk.makeLink`: plain changes of a disk.
-/

namespace PhpRename.Disk

/-- The text of a file. -/
def read (d : Disk) (p : Path) : Except Fault String :=
  match d.find p with
  | .ok (_, .file (.text s) _) => .ok s
  | .ok (_, .file (.bytes _) _) => .error .notText
  | .ok (_, .directory _) => .error .isDirectory
  | .ok (_, .link _) => .error .notFound
  | .error fault => .error fault

/-- The number of bytes by which the name under which new text is first written is longer than
the name of the file. -/
def draftLength : Nat := 37

/-- Replaces the text of a file. The new text is first written to a file beside the old one,
which then takes its place; a link gives way to it too. -/
def rewrite (d : Disk) (p : Path) (s : String) : Except Fault Disk :=
  if d.isLocked p then .error (.readOnly p)
  else if maxName < (p.fileName?.getD "").utf8ByteSize + draftLength then .error .nameTooLong
  else if maxSpelling ≤ p.spelling.utf8ByteSize + draftLength then .error .nameTooLong
  else
    match d.place false p with
    | .ok (.taken _ (.directory _)) => .error .isDirectory
    | .ok (.taken name _) => .ok (d.set name (.file (.text s) true))
    | .ok (.free dir last _) => .ok (d.set (dir ++ [last]) (.file (.text s) true))
    | .error fault => .error fault

/-- Makes one directory. -/
def makeDirectory (d : Disk) (p : Path) : Except Fault Disk :=
  match d.place false p with
  | .ok (.taken ..) => .error .alreadyExists
  | .ok (.free dir last _) => .ok (d.set (dir ++ [last]) (.directory true))
  | .error fault => .error fault

/-- Makes one directory, unless it is there. -/
def ensureDirectory (d : Disk) (p : Path) : Except Fault Disk :=
  match d.makeDirectory p with
  | .ok d => .ok d
  | .error fault => if d.hasDirectory p then .ok d else .error fault

/-- Makes a directory and up to `n` of those that it lies in, the outer ones first. What has
been made stays if another cannot be. -/
def makeUpTo (d : Disk) : Nat → Path → Disk × Option Fault
  | 0, _ => (d, some .notFound)
  | n + 1, p =>
    if p.spelling = "" then (d, none)
    else
      match d.ensureDirectory p with
      | .ok d => (d, none)
      | .error .notFound =>
        match p.parent? with
        | none => (d, some .notFound)
        | some parent =>
          match makeUpTo d n parent with
          | (d, some fault) => (d, some fault)
          | (d, none) =>
            match d.ensureDirectory p with
            | .ok d => (d, none)
            | .error fault => (d, some fault)
      | .error fault => (d, some fault)

/-- Makes a directory and all that it lies in. -/
def makeDirectories (d : Disk) (p : Path) : Disk × Option Fault :=
  d.makeUpTo (p.parts.length + 1) p

/-- The path ends in a name, so what it leads to can be moved. -/
def endsInName (p : Path) : Bool :=
  match (Path.segments p.spelling.toList).reverse.dropWhile List.isEmpty with
  | [] => false
  | piece :: _ => piece ≠ ['.'] ∧ piece ≠ ['.', '.']

/-- Moves what is under the name `a` to the name `b`, where `there?` stands. -/
def moveOnto (d : Disk) (a : Name) (node : Node) (b : Name) (there? : Option Node) :
    Except Fault Disk :=
  let moved := fun (_ : Unit) => .ok (d.relocate a b)
  if a = b then .ok d
  else if Name.isWithin b a then .error .invalid
  else if Name.isWithin a b then .error .notEmpty
  else
    match node, there? with
    | _, none => moved ()
    | .directory _, some (.directory _) =>
      if (d.below b).isEmpty then moved () else .error .notEmpty
    | .directory _, some _ => .error .notDirectory
    | _, some (.directory _) => .error .isDirectory
    | _, some _ => moved ()

/-- Moves a file, a link or a directory with all that it holds. -/
def move (d : Disk) (source target : Path) : Except Fault Disk :=
  match d.place false source, d.place false target with
  | .error fault, _ | _, .error fault => .error fault
  | .ok origin, .ok goal =>
    if !endsInName source || !endsInName target then .error .busy
    else
      match origin, goal with
      | .free .., _ => .error .notFound
      | .taken a node, .taken b there => d.moveOnto a node b (some there)
      | .taken a node, .free dir last slash =>
        if slash && !(node matches .directory _) then .error .notDirectory
        else d.moveOnto a node (dir ++ [last]) none

/-- Puts content into a file, which is made if it is not there. -/
def write (d : Disk) (p : Path) (content : Content) : Except Fault Disk :=
  match d.place true p with
  | .ok (.taken name (.file _ writable)) => .ok (d.set name (.file content writable))
  | .ok (.taken ..) => .error .isDirectory
  | .ok (.free dir last slash) =>
    if slash then .error .isDirectory else .ok (d.set (dir ++ [last]) (.file content true))
  | .error fault => .error fault

/-- Says whether a file or a directory may be changed. -/
def allow (d : Disk) (p : Path) (writable : Bool) : Except Fault Disk :=
  match d.find p with
  | .ok (name, .file content _) => .ok (d.set name (.file content writable))
  | .ok (name, .directory _) => .ok (d.set name (.directory writable))
  | .ok (_, .link _) => .error .notFound
  | .error fault => .error fault

/-- Takes away a file or a link. -/
def remove (d : Disk) (p : Path) : Except Fault Disk :=
  match d.place false p with
  | .ok (.taken _ (.directory _)) => .error .isDirectory
  | .ok (.taken name _) => .ok (d.erase name)
  | .ok (.free ..) => .error .notFound
  | .error fault => .error fault

/-- Makes a symbolic link. -/
def makeLink (d : Disk) (p : Path) (target : String) : Except Fault Disk :=
  match d.place false p with
  | .ok (.taken ..) => .error .alreadyExists
  | .ok (.free dir last _) => .ok (d.set (dir ++ [last]) (.link target))
  | .error fault => .error fault

end PhpRename.Disk
