import PhpRename.Path.Basic

/-!
# Normal paths

A path is *normal* when it has no `.` and a `..` only where nothing is left to climb out of.
Normalizing is a matter of spelling: no directory is looked at.

* `Path.normalize`: the normal path that a path stands for.
* `Path.absoluteFrom`: a path read from a working directory.
-/

namespace PhpRename.Path

/-- Adds a part to a normal path, given last part first. A `..` takes back a name, is lost at
the root, and is kept where there is nothing to take back. -/
def climb (done : List Part) (part : Part) : List Part :=
  match part with
  | .here => done
  | .up =>
    match done with
    | .name _ :: rest => rest
    | _ => if done.contains .root then done else .up :: done
  | .root => [.root]
  | .name text => .name text :: done

/-- The normal form of a list of parts. -/
def normalParts (ps : List Part) : List Part :=
  (ps.foldl climb []).reverse

/-- Resolves `.` and `..` by spelling alone. -/
def normalize (p : Path) : Path :=
  ofParts (normalParts p.parts)

/-- The normal path that `p` stands for when it is read from the directory `dir`. -/
def absoluteFrom (dir p : Path) : Path :=
  if p.isAbsolute then p.normalize else (dir.join p).normalize

/-- The directory of a file, the root for a path that has no parent. -/
def directory (p : Path) : Path :=
  p.parent?.getD ⟨"/"⟩

/-- Where `text`, written in the file `p`, points to. -/
def resolve (p : Path) (text : String) : Path :=
  let target : Path := ⟨text⟩
  if target.isAbsolute then target.normalize else (p.directory.join target).normalize

end PhpRename.Path
