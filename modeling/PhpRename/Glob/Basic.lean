/-!
# Globs

A glob describes the spelling of a path, byte by byte. Unlike in a shell, `?` and `*` also stand
for slashes.

* `Glob.Item.rests`: what an item leaves over of a text that it begins.
* `Glob.admits`: the glob describes a text.
-/

namespace PhpRename.Glob

/-- One item of a glob. -/
inductive Item where
  | literal (c : Char)
  /-- Any one byte. -/
  | any
  /-- Any bytes. -/
  | star
  /-- Directories that a path begins with, or none: a leading `**/`. -/
  | lead
  /-- Everything below a directory: a trailing `/**`. -/
  | tail
  /-- A slash, with any directories after it: `/**/`. -/
  | between
  /-- One byte of the ranges, or one that is of none of them. -/
  | byteOf (negated : Bool) (ranges : List (UInt8 × UInt8))
  /-- One of the branches; nothing at all if there are none. -/
  | alternates (branches : List (List Item))
deriving Repr, Inhabited

/-- The byte that a slash is. -/
def slash : UInt8 := 47

/-- A text and everything that is left of it when bytes are taken from its front. -/
def suffixes : List UInt8 → List (List UInt8)
  | [] => [[]]
  | b :: bs => (b :: bs) :: suffixes bs

/-- What stands after each slash of a text. -/
def afterSlashes : List UInt8 → List (List UInt8)
  | [] => []
  | b :: bs => if b = slash then bs :: afterSlashes bs else afterSlashes bs

/-- What stands after a slash that a text begins with. -/
def afterSlash? : List UInt8 → Option (List UInt8)
  | [] => none
  | b :: bs => if b = slash then some bs else none

/-- What is left of a text after the bytes that it should begin with. -/
def strip? : List UInt8 → List UInt8 → Option (List UInt8)
  | [], text => some text
  | _ :: _, [] => none
  | x :: xs, b :: bs => if x = b then strip? xs bs else none

/-- The byte lies in one of the ranges. -/
def inRanges (ranges : List (UInt8 × UInt8)) (b : UInt8) : Bool :=
  ranges.any fun (first, last) => first ≤ b && b ≤ last

/-- The first text of each length, but of none of the lengths seen before. -/
def firstOfLength (seen : List Nat) : List (List UInt8) → List (List UInt8)
  | [] => []
  | text :: texts =>
    if seen.contains text.length then firstOfLength seen texts
    else text :: firstOfLength (text.length :: seen) texts

mutual

/-- Everything that can be left over of a text after the item. -/
def Item.rests (text : List UInt8) : Item → List (List UInt8)
  | .literal c => (strip? (String.utf8EncodeChar c) text).toList
  | .any => text.tail?.toList
  | .star => suffixes text
  | .lead => text :: ((afterSlash? text).toList ++ afterSlashes text)
  | .tail => (afterSlash? text).toList.flatMap suffixes
  | .between => (afterSlash? text).toList.flatMap fun bs => bs :: afterSlashes bs
  | .byteOf negated ranges =>
    match text with
    | [] => []
    | b :: bs => if inRanges ranges b = negated then [] else [bs]
  | .alternates [] => [text]
  | .alternates (branch :: branches) => branchRests text (branch :: branches)

/-- Everything that can be left over of a text after one of the branches. -/
def branchRests (text : List UInt8) : List (List Item) → List (List UInt8)
  | [] => []
  | branch :: branches => seqRests [text] branch ++ branchRests text branches

/-- Everything that can be left over after the items in turn, when the texts are what is left
over before them. Rests of one text are equal when they are equally long, so one of each length
is enough. -/
def seqRests (texts : List (List UInt8)) : List Item → List (List UInt8)
  | [] => texts
  | item :: items =>
    seqRests (firstOfLength [] (texts.flatMap fun text => Item.rests text item)) items

end

/-- The items make up a text of no length only: no branch of theirs has anything in it. -/
def isVoid (items : List Item) : Bool :=
  items.all fun item => item matches .alternates []

end PhpRename.Glob

namespace PhpRename

/-- A glob: its items in order. -/
structure Glob where
  items : List Glob.Item
deriving Repr, Inhabited

namespace Glob

/-- The glob describes the whole text. Alone, a `**` describes every text. -/
def admits (g : Glob) (text : String) : Bool :=
  match g.items with
  | [.lead] => true
  | items =>
    (seqRests [text.toList.flatMap String.utf8EncodeChar] items).any List.isEmpty

end Glob

end PhpRename
