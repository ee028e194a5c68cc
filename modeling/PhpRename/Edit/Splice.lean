import PhpRename.Edit.Basic
import PhpRename.Text.Offset

/-!
# Splicing edits into content

* `Edit.firstClash?`: the first two neighbours, in order of offset and length, that compete.
* `Edit.splice`: the content with every edit made, or the edit that cannot be made.
-/

namespace PhpRename.Edit

open Text

/-- Why edits cannot be made. -/
inductive Fault where
  /-- Two ranges of bytes compete. -/
  | clash (first second : Nat × Nat)
  /-- A range does not lie within the content, or splits a character. -/
  | outside (offset length : Nat)
deriving DecidableEq, Repr

/-- The range of bytes an edit replaces. -/
def range (e : Edit) : Nat × Nat :=
  (e.offset, e.stop)

/-- Earlier offsets come first; at one offset the shorter range does. -/
def before (e f : Edit) : Bool :=
  e.offset < f.offset || (e.offset = f.offset && e.length ≤ f.length)

/-- The first two neighbours that compete, if `ends` says where an edit ends. -/
def clashingNeighbours (ends : Edit → Nat) : List Edit → Option (Edit × Edit)
  | e :: f :: rest =>
    if overlapsBy ends e f then some (e, f) else clashingNeighbours ends (f :: rest)
  | _ => none

/-- The first two edits, in order of offset and length, that compete. -/
def firstClash? (ends : Edit → Nat) (edits : List Edit) : Option (Edit × Edit) :=
  clashingNeighbours ends (edits.mergeSort before)

/-- Refuses edits that compete, if `ends` says where an edit ends. -/
def checkClashesBy (ends : Edit → Nat) (edits : List Edit) : Except Fault Unit :=
  match firstClash? ends edits with
  | none => .ok ()
  | some (e, f) => .error (.clash (e.offset, ends e) (f.offset, ends f))

/-- Refuses edits that compete. -/
def checkClashes (edits : List Edit) : Except Fault Unit :=
  checkClashesBy stop edits

/-- The edit's range lies within the content and splits no character. -/
def fits (content : List Char) (e : Edit) : Bool :=
  isBoundary content e.offset && isBoundary content e.stop

/-- Makes edits given from the last to the first. `done` is what stands in place of the content
from `floor` on. -/
def spliceDown (content : List Char) : List Edit → Nat → List Char → Except Fault (List Char)
  | [], floor, done => .ok (upTo content floor ++ done)
  | e :: rest, floor, done =>
    if !e.fits content then .error (.outside e.offset e.length)
    else if floor < e.stop then .error (.clash e.range (floor, floor))
    else
      spliceDown content rest e.offset
        (e.replacement.toList ++ slice content e.stop floor ++ done)

/-- Makes all the edits. They are made from the last to the first, so that each offset still
refers to unchanged content when its turn comes. -/
def splice (content : List Char) (edits : List Edit) : Except Fault (List Char) :=
  spliceDown content (edits.mergeSort fun e f => before f e) (width content) []

end PhpRename.Edit
