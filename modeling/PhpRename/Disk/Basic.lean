import PhpRename.Disk.Fault

/-!
# Disks

A disk is a list of named entries. The name of an entry is the list of names on the way from the
root to it, so a directory holds the entries whose names continue its own. The root has the empty
name and is not listed.

* `Disk.node?`: what stands under a name.
* `Disk.set`, `Disk.erase`: puts something under a name, or takes it away.
* `Disk.relocate`: gives an entry and all that it holds a new name.
* `Disk.below`: all that a directory holds.
-/

namespace PhpRename

/-- The names on the way from the root to an entry. -/
abbrev Disk.Name := List String

/-- What is in a file. -/
inductive Disk.Content where
  | text (s : String)
  /-- Bytes that are no text. -/
  | bytes (bs : List UInt8)
deriving DecidableEq, Repr, Inhabited

/-- What stands under a name. -/
inductive Disk.Node where
  | file (content : Disk.Content) (writable : Bool)
  | directory (writable : Bool)
  /-- A symbolic link, to the path spelled so. -/
  | link (target : String)
deriving DecidableEq, Repr, Inhabited

/-- Everything that is stored. -/
structure Disk where
  /-- The working directory. -/
  here : Disk.Name
  entries : List (Disk.Name × Disk.Node)
deriving Repr, Inhabited

namespace Disk

/-- Nothing is stored but empty directories on the way to the working directory. -/
def empty (here : Name) : Disk :=
  ⟨here, ((beginnings here).filter fun n => !n.isEmpty).map fun n => (n, .directory true)⟩
where
  /-- The beginnings of a list, from the empty one to itself. -/
  beginnings : Name → List Name
    | [] => [[]]
    | s :: n => [] :: (beginnings n).map (s :: ·)

/-- What stands under a name. -/
def node? (d : Disk) (n : Name) : Option Node :=
  if n = [] then some (.directory true) else d.entries.lookup n

/-- The name is not that of an entry. -/
def erase (d : Disk) (n : Name) : Disk :=
  { d with entries := d.entries.filter fun e => e.1 ≠ n }

/-- Under the name stands the node. -/
def set (d : Disk) (n : Name) (node : Node) : Disk :=
  if (d.entries.lookup n).isSome then
    { d with entries := d.entries.map fun e => if e.1 = n then (n, node) else e }
  else { d with entries := d.entries ++ [(n, node)] }

/-- The name is the other one or that of something in it. -/
def Name.isWithin (n dir : Name) : Bool :=
  dir.isPrefixOf n

/-- The name when what stood under `a` stands under `b`. -/
def Name.along (n a b : Name) : Name :=
  if Name.isWithin n a then b ++ n.drop a.length else n

/-- What stood under `a`, and in it, stands under `b` and in it. If the working directory is among
that, it is still the working directory. -/
def relocate (d : Disk) (a b : Name) : Disk :=
  let others := d.entries.filter fun e => e.1 ≠ b
  { here := d.here.along a b, entries := others.map fun (n, node) => (n.along a b, node) }

/-- All that a directory holds, named from the directory on. -/
def below (d : Disk) (dir : Name) : List (Name × Node) :=
  d.entries.filterMap fun (n, node) =>
    if Name.isWithin n dir ∧ n ≠ dir then some (n.drop dir.length, node) else none

/-- The path that spells a name. -/
def Name.path (n : Name) : Path :=
  ⟨"/" ++ String.intercalate "/" n⟩

/-- The path of the working directory. -/
def workingDirectory (d : Disk) : Path :=
  Name.path d.here

end Disk

end PhpRename
