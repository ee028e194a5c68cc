import PhpRename.Glob.Basic
import PhpRename.Glob.Fault

/-!
# Glyphs of globs

The characters of a glob, with escaped characters and classes in brackets taken as one.

* `Glob.glyphs`: the glyphs of a text. A fault in the text ends them.
-/

namespace PhpRename.Glob

/-- What a glob is written with. -/
inductive Glyph where
  /-- A character that stands for itself or for what it means. -/
  | plain (c : Char)
  /-- A character after a backslash. -/
  | escaped (c : Char)
  /-- A class in brackets. -/
  | bracket (item : Item)
  | fault (f : Fault)
deriving Repr

/-- What has been read of a class in brackets. -/
structure Bracket where
  negated : Bool
  /-- Nothing has been read yet. -/
  first : Bool
  /-- A hyphen has been read that may join two characters. -/
  joining : Bool
  /-- The ranges, the last one first. -/
  ranges : List (Char × Char)

namespace Bracket

/-- A bracket has been opened. -/
def opened (negated : Bool) : Bracket :=
  ⟨negated, true, false, []⟩

/-- The bracket with a character added. After a hyphen it becomes the end of the last range. -/
def add (b : Bracket) (c : Char) : Except Fault Bracket :=
  match b.joining, b.ranges with
  | true, (first, _) :: ranges =>
    if c < first then .error (.invalidRange first c)
    else .ok { b with first := false, joining := false, ranges := (first, c) :: ranges }
  | _, ranges => .ok { b with first := false, joining := false, ranges := (c, c) :: ranges }

/-- The ranges of bytes for a range of characters. The bytes of characters longer than one byte
count one by one, and the range is that between the last byte of the one and the first of the
other. -/
def byteRanges (first last : Char) : List (UInt8 × UInt8) :=
  let one := fun (b : UInt8) => (b, b)
  let low := String.utf8EncodeChar first
  if first = last then low.map one
  else
    match low.getLast?, String.utf8EncodeChar last with
    | some b, c :: rest => low.dropLast.map one ++ (b, c) :: rest.map one
    | _, _ => []

/-- The item that the bracket stands for once it is closed. A hyphen at the end stands for
itself. -/
def item (b : Bracket) : Item :=
  let ranges := if b.joining then ('-', '-') :: b.ranges else b.ranges
  .byteOf b.negated (ranges.reverse.flatMap fun (first, last) => byteRanges first last)

end Bracket

/-- Where the reading of glyphs stands. -/
inductive Glyph.Mode where
  | outside
  | escape
  /-- After an opening bracket. -/
  | opening
  | inside (b : Bracket)

/-- The glyphs of a text, from where the reading stands. -/
def glyphsFrom : Glyph.Mode → List Char → List Glyph
  | .outside, [] => []
  | .escape, [] => [.fault .danglingEscape]
  | .opening, [] | .inside _, [] => [.fault .unclosedClass]
  | .outside, c :: cs =>
    if c = '\\' then glyphsFrom .escape cs
    else if c = '[' then glyphsFrom .opening cs
    else .plain c :: glyphsFrom .outside cs
  | .escape, c :: cs => .escaped c :: glyphsFrom .outside cs
  | .opening, c :: cs =>
    if c = '!' ∨ c = '^' then glyphsFrom (.inside (.opened true)) cs
    else
      match (Bracket.opened false).add c with
      | .ok b => glyphsFrom (.inside b) cs
      | .error f => [.fault f]
  | .inside b, c :: cs =>
    if c = ']' ∧ ¬b.first then .bracket b.item :: glyphsFrom .outside cs
    else if c = '-' ∧ ¬b.first ∧ ¬b.joining then glyphsFrom (.inside { b with joining := true }) cs
    else
      match b.add c with
      | .ok b => glyphsFrom (.inside b) cs
      | .error f => [.fault f]

/-- The glyphs of a text. -/
def glyphs (text : String) : List Glyph :=
  glyphsFrom .outside text.toList

end PhpRename.Glob
