/-!
# Paths

A path keeps the spelling it was written with; what it names is its list of *parts*. Two
paths are equal, and are ordered, by their parts, so `/b//c`, `/b/./c` and `/b/c/` are one
path with three spellings.

* `Path.parts`: the parts of a spelling.
* `Path.ofParts`: the plain spelling of a list of parts.
* `Path.join`, `Path.parent?`, `Path.fileName?`, `Path.extension?`: the usual operations,
  each keeping as much of the spelling as it can.
-/

namespace PhpRename

/-- One part of a path. -/
inductive Path.Part where
  /-- The `/` that an absolute path begins with. -/
  | root
  /-- A `.` that a relative path begins with. -/
  | here
  /-- A `..` -/
  | up
  | name (text : String)
deriving DecidableEq, Repr, Inhabited

/-- A path as it is spelled. -/
structure Path where
  spelling : String
deriving Repr, Inhabited

namespace Path

namespace Part

/-- How a part is spelled. -/
def text : Part → String
  | root => "/"
  | here => "."
  | up => ".."
  | name text => text

/-- The root sorts before `.`, that before `..`, that before names; names sort by their text. -/
def order : Part → Part → Ordering
  | root, root => .eq
  | root, _ => .lt
  | here, root => .gt
  | here, here => .eq
  | here, _ => .lt
  | up, root => .gt
  | up, here => .gt
  | up, up => .eq
  | up, name _ => .lt
  | name s, name t => compare s t
  | name _, _ => .gt

instance : Ord Part := ⟨order⟩

/-- The part that text between slashes stands for. Nothing and `.` stand for none. -/
def ofSegment? (s : List Char) : Option Part :=
  if s = [] ∨ s = ['.'] then none
  else if s = ['.', '.'] then some up
  else some (name (String.ofList s))

end Part

/-- The pieces of a text between its slashes. -/
def segments : List Char → List (List Char)
  | [] => [[]]
  | c :: cs =>
    if c = '/' then [] :: segments cs
    else
      match segments cs with
      | [] => [[c]]
      | s :: ss => (c :: s) :: ss

/-- Puts a slash between each two pieces. -/
def joinSegments : List (List Char) → List Char
  | [] => []
  | [s] => s
  | s :: t :: ss => s ++ '/' :: joinSegments (t :: ss)

/-- The parts of a list of pieces between slashes. Only at the front does an empty piece mean
the root and a `.` mean anything. -/
def partsOfSegments : List (List Char) → List Part
  | [] => []
  | first :: rest =>
    let lead :=
      if first = [] then (if rest = [] then [] else [.root])
      else if first = ['.'] then [.here]
      else (Part.ofSegment? first).toList
    lead ++ rest.filterMap Part.ofSegment?

/-- What the path names, part by part. -/
def parts (p : Path) : List Part :=
  partsOfSegments (segments p.spelling.toList)

instance : BEq Path := ⟨fun p q => p.parts == q.parts⟩

instance : Ord Path := ⟨fun p q => compare p.parts q.parts⟩

instance : ToString Path := ⟨spelling⟩

/-- The path begins at the root. -/
def isAbsolute (p : Path) : Bool :=
  p.spelling.toList.head? = some '/'

/-- The path `q` read from the directory `p`. -/
def join (p q : Path) : Path :=
  if q.isAbsolute then q
  else if p.spelling = "" ∨ p.spelling.toList.getLast? = some '/' then ⟨p.spelling ++ q.spelling⟩
  else ⟨p.spelling ++ "/" ++ q.spelling⟩

/-- The plain spelling of a list of parts. -/
def ofParts (ps : List Part) : Path :=
  ps.foldl (fun p part => p.join ⟨part.text⟩) ⟨""⟩

/-- The spelling with one slash between parts and none at the end. -/
def slashed (p : Path) : String :=
  (ofParts p.parts).spelling

/-- Pieces at the end that stand for no part are dropped. -/
def dropTrivial (ss : List (List Char)) : List (List Char) :=
  (ss.reverse.dropWhile fun s => (Part.ofSegment? s).isNone).reverse

/-- The directory that holds what the path names, in the path's own spelling; `none` for the
root and for the empty path. -/
def parent? (p : Path) : Option Path :=
  match segments p.spelling.toList with
  | [] => none
  | first :: rest =>
    match dropTrivial rest with
    | [] =>
      if first = [] then none
      else some ⟨""⟩
    | body =>
      match dropTrivial body.dropLast with
      | [] => if first = [] then some ⟨"/"⟩ else some ⟨String.ofList first⟩
      | left => some ⟨String.ofList (joinSegments (first :: left))⟩

/-- The last part, when it is a name. -/
def fileName? (p : Path) : Option String :=
  match p.parts.getLast? with
  | some (.name text) => some text
  | _ => none

/-- The text after the last dot of the file name; `none` when there is no dot but a leading one. -/
def extension? (p : Path) : Option String :=
  match p.fileName? with
  | none => none
  | some text =>
    let back := text.toList.reverse
    let after := back.takeWhile (· ≠ '.')
    match back.dropWhile (· ≠ '.') with
    | _ :: _ :: _ => some (String.ofList after.reverse)
    | _ => none

/-- The parts of `p` below `base`; `none` when `p` does not begin with the parts of `base`. -/
def below? (base p : Path) : Option (List Part) :=
  if base.parts.isPrefixOf p.parts then some (p.parts.drop base.parts.length) else none

end Path

end PhpRename
