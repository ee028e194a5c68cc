/-!
# Ranges of code points

A set of characters is written as a list of ranges of code points in base sixteen, such as
`"30-39 41-5a 5f"`.

* `Ranges.read`: the ranges that a text writes.
* `Ranges.has`: a code point lies in one of the ranges.
-/

namespace PhpRename.Unicode

/-- Ranges of code points with both ends, in ascending order. -/
abbrev Ranges := List (Nat × Nat)

namespace Ranges

/-- A code point lies in one of the ranges. -/
def has : Ranges → Nat → Bool
  | [], _ => false
  | (low, high) :: rest, n => if n ≤ high then low ≤ n else has rest n

/-- The value of a digit in base sixteen; 0 for any other character. -/
def digit (c : Char) : Nat :=
  if '0' ≤ c ∧ c ≤ '9' then c.toNat - '0'.toNat
  else if 'a' ≤ c ∧ c ≤ 'f' then c.toNat - 'a'.toNat + 10
  else if 'A' ≤ c ∧ c ≤ 'F' then c.toNat - 'A'.toNat + 10
  else 0

/-- The number that digits write in base sixteen. -/
def number (cs : List Char) : Nat :=
  cs.foldl (fun n c => 16 * n + digit c) 0

/-- The range that a text writes: both ends with a dash between them, or one code point. -/
def readOne (cs : List Char) : Nat × Nat :=
  let low := cs.takeWhile (· ≠ '-')
  match cs.drop low.length with
  | [] => (number low, number low)
  | _ :: high => (number low, number high)

/-- The pieces of a text between its spaces. -/
def pieces : List Char → List (List Char)
  | [] => [[]]
  | c :: cs =>
    if c = ' ' then [] :: pieces cs
    else
      match pieces cs with
      | [] => [[c]]
      | p :: ps => (c :: p) :: ps

/-- The ranges that lines of text write. -/
def read (lines : List String) : Ranges :=
  lines.flatMap fun l => (pieces l.toList).map readOne

end Ranges

end PhpRename.Unicode
