import PhpRename.Text.Offset

/-!
# Lines of a text

Lines are numbered from 1 and end at a newline. A text is located by its *line starts*,
the byte offsets at which its lines begin.

* `lineOf`: the line that holds a byte offset.
* `lineText`: a line without its ending.
-/

namespace PhpRename.Text

/-- Byte offsets just after each newline, for a text that begins at offset `at_`. -/
def startsAfter : Nat → List Char → List Nat
  | _, [] => []
  | at_, c :: cs =>
    if c = '\n' then (at_ + 1) :: startsAfter (at_ + 1) cs
    else startsAfter (at_ + c.utf8Size) cs

/-- Byte offsets at which the lines of a text begin. -/
def lineStarts (cs : List Char) : List Nat :=
  0 :: startsAfter 0 cs

/-- The line of a byte offset: the number of line starts at or before it. -/
def lineOf (starts : List Nat) (offset : Nat) : Nat :=
  (starts.takeWhile (· ≤ offset)).length

/-- A character that ends a line. -/
def isLineEnd (c : Char) : Bool :=
  c = '\n' || c = '\r'

/-- The text without the line ends at its end. -/
def dropLineEnds (cs : List Char) : List Char :=
  (cs.reverse.dropWhile isLineEnd).reverse

/-- Line `n` of the text without its ending; empty when there is no line `n`. -/
def lineText (cs : List Char) (starts : List Nat) (n : Nat) : List Char :=
  match n with
  | 0 => []
  | k + 1 =>
    match starts[k]? with
    | none => []
    | some start => dropLineEnds (slice cs start (starts[k + 1]?.getD (width cs)))

end PhpRename.Text
