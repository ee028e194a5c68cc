import PhpRename.Text.Offset

/-!
# Finding all occurrences in a text

* `scan`: what a finder finds in a text, from the left, no two occurrences sharing a character.
* `stripStart?`: the text after a given beginning.
-/

namespace PhpRename.Text

/-- Everything that `find` finds in the text. `find` is given the characters before a place (the
nearest one first) and those after it, and tells what it finds at the place and the number of
characters that takes. `skip` characters belong to the last occurrence. The result gives each
occurrence with its byte offset. -/
def scan (find : List Char → List Char → Option (α × Nat)) (before : List Char) (skip : Nat) :
    List Char → List (Nat × α)
  | [] =>
    match skip, find before [] with
    | 0, some (a, _) => [(width before, a)]
    | _, _ => []
  | c :: cs =>
    match skip with
    | k + 1 => scan find (c :: before) k cs
    | 0 =>
      match find before (c :: cs) with
      | some (a, n) => (width before, a) :: scan find (c :: before) (n - 1) cs
      | none => scan find (c :: before) 0 cs

/-- The text after the beginning `start`, if the text has that beginning. -/
def stripStart? : List Char → List Char → Option (List Char)
  | [], cs => some cs
  | _ :: _, [] => none
  | s :: ss, c :: cs => if s = c then stripStart? ss cs else none

/-- The text before the place where `before` ends has the ending `tail`. -/
def endsWith (before tail : List Char) : Bool :=
  tail.reverse.isPrefixOf before

end PhpRename.Text
