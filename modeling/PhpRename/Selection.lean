import PhpRename.Disk.Place
import PhpRename.Extensions
import PhpRename.Failure
import PhpRename.Glob.Reader
import PhpRename.Path.Normal

/-!
# Selecting files

Which files a run looks at. Of a directory these are all files in it with an enabled extension; a
file that is named itself may have any. What a glob describes is left out, and so is all that lies
in a directory that a glob describes. A glob is held against the whole path, and against the path
from the directory that was named.

* `Selection.files`: the selected files at some paths, each once.
-/

namespace PhpRename

/-- Which files are looked at. -/
structure Selection where
  extensions : Extensions
  /-- The globs for what is left out, as they were written. -/
  patterns : List String
  globs : List Glob
deriving Repr, Inhabited

namespace Selection

/-- PHP files, and nothing left out. -/
def default : Selection :=
  ⟨Extensions.default, [], []⟩

/-- The globs that texts write, or the first text that writes none. -/
def readGlobs : List String → Except Failure (List Glob)
  | [] => .ok []
  | text :: texts =>
    match Glob.read text with
    | .error fault => .error (.glob text fault)
    | .ok g => (readGlobs texts).map (g :: ·)

/-- The selection with other globs for what is left out. -/
def leavingOut (s : Selection) (patterns : List String) : Except Failure Selection :=
  (readGlobs patterns).map fun globs => { s with patterns, globs }

/-- A glob describes the text. -/
def matchesText (s : Selection) (text : String) : Bool :=
  s.globs.any fun g => g.admits text

/-- A glob describes the path, or the path as seen from the directory `root`. -/
def ignores (s : Selection) (root p : Path) : Bool :=
  s.matchesText p.slashed ||
    match Path.below? root p with
    | none | some [] => false
    | some parts => s.matchesText (Path.ofParts parts).slashed

/-- The extension of the path is enabled. -/
def allowsExtension (s : Selection) (p : Path) : Bool :=
  match p.extension? with
  | some ext => s.extensions.allows ext
  | none => false

/-- The path of what has the name `n` in the directory `root`. -/
def pathBelow (root : Path) (n : Disk.Name) : Path :=
  n.foldl (fun p text => p.join ⟨text⟩) root

/-- Neither the directory `root`, nor what has the name `n` in it, nor a directory on the way is
left out. -/
def reaches (s : Selection) (root : Path) (n : Disk.Name) : Bool :=
  (List.range (n.length + 1)).all fun k => !s.ignores root (pathBelow root (n.take k))

/-- The selected files in a directory. Names in one directory are in order, and what a directory
holds stands where the directory would. -/
def filesBelow (s : Selection) (d : Disk) (root : Path) (dir : Disk.Name) : List Path :=
  let entries := (d.below dir).mergeSort fun a b => (compare a.1 b.1).isLE
  entries.filterMap fun (n, node) =>
    let p := pathBelow root n
    if node matches .file .. ∧ s.allowsExtension p ∧ s.reaches root n then some p else none

/-- The selected files at one path. -/
def filesAt (s : Selection) (d : Disk) (p : Path) : List Path :=
  let p := Path.absoluteFrom d.workingDirectory p
  match d.find p with
  | .ok (dir, .directory _) => s.filesBelow d p dir
  | .ok (_, .file ..) => if s.ignores p.directory p then [] else [p]
  | _ => []

/-- The selected files at some paths, each once, in the order in which the paths are given. -/
def files (s : Selection) (d : Disk) (paths : List Path) : List Path :=
  (paths.flatMap (s.filesAt d)).eraseDups

end Selection

end PhpRename
