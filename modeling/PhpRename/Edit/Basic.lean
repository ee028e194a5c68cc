import PhpRename.Mode
import PhpRename.Path.Basic

/-!
# Edits

An edit replaces a range of bytes of the unchanged content of one file.

* `Edit.overlaps`: two edits compete for the same place.
* `Edit.wrappedStop`: where an edit ends, in 64 bits.
* `Edit.insertInto`: edits that make the same change are kept once, with the stronger
  confidence.
-/

namespace PhpRename

/-- A change of one range of a file. -/
structure Edit where
  file : Path
  /-- Byte offset into the unchanged content. -/
  offset : Nat
  /-- Number of bytes replaced. -/
  length : Nat
  replacement : String
  confidence : Confidence
  /-- Line of `offset`. -/
  line : Nat
deriving Repr, Inhabited

namespace Edit

/-- The offset just after the replaced bytes. -/
def stop (e : Edit) : Nat :=
  e.offset + e.length

/-- By how many bytes the edit lengthens the content. -/
def delta (e : Edit) : Int :=
  (e.replacement.utf8ByteSize : Int) - e.length

/-- The two edits put the same text in place of the same range. -/
def sameChange (e f : Edit) : Bool :=
  e.offset = f.offset && e.length = f.length && e.replacement = f.replacement

/-- The two edits share bytes, if `ends` says where an edit ends. Two edits at one offset always
compete, insertions too. -/
def overlapsBy (ends : Edit → Nat) (e f : Edit) : Bool :=
  e.offset = f.offset || (e.offset < ends f && f.offset < ends e)

/-- The two edits share bytes. -/
def overlaps (e f : Edit) : Bool :=
  overlapsBy stop e f

/-- The number of offsets that 64 bits tell apart. No file has as many bytes. -/
def offsetCount : Nat :=
  18446744073709551616

/-- The offset just after the replaced bytes, in 64 bits. For edits that lie in a file that is `stop`;
where another one goes beyond all offsets, its end is counted from zero again. -/
def wrappedStop (e : Edit) : Nat :=
  e.stop % offsetCount

/-- Adds `e` to a list of edits. If one of them makes the same change, that one only takes the
stronger confidence. -/
def insertInto (e : Edit) : List Edit → List Edit
  | [] => [e]
  | x :: xs =>
    if x.sameChange e then { x with confidence := x.confidence.max e.confidence } :: xs
    else x :: insertInto e xs

end Edit

/-- All edits proposed for one file, each change once, in the order first proposed. -/
structure FileEdits where
  path : Path
  edits : List Edit
deriving Repr, Inhabited

namespace FileEdits

/-- No edits yet. -/
def new (path : Path) : FileEdits :=
  ⟨path, []⟩

/-- Adds an edit. -/
def push (s : FileEdits) (e : Edit) : FileEdits :=
  { s with edits := e.insertInto s.edits }

end FileEdits

end PhpRename
