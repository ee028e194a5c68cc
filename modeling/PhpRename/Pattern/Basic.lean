import PhpRename.Pattern.Reader
import PhpRename.Pattern.Search
import PhpRename.Text.Offset

/-!
# Patterns

A pattern is a regular expression with groups. Matches are found from the left, and of several
that begin at one place the one that is preferred by the order of alternatives counts.

* `Pattern.ofText?`: the pattern that a text writes.
* `Pattern.findAll`: all matches in a text.
-/

namespace PhpRename

/-- A pattern that is ready for use. -/
structure Pattern where
  program : Pattern.Compiled
  /-- The number of groups that keep what they match. -/
  groups : Nat
  /-- The names of groups, with their numbers. -/
  names : List (String × Nat)

/-- A match of a pattern. -/
structure Pattern.Match where
  /-- Byte offset of its first character. -/
  start : Nat
  /-- Byte offset just after it. -/
  stop : Nat
  /-- What the groups match, the whole match first. -/
  groups : List (Option String)

namespace Pattern

/-- The pattern that a text writes, or none if it writes none. -/
def ofText? (text : String) (caseless : Bool) : Option Pattern :=
  (read? { Flags.plain with caseless } text.toList).map fun r =>
    ⟨r.expr.compile, r.groups, r.names⟩

/-- The text between two kept places. -/
def kept (text : Array Char) (start stop : Option Nat) : Option String :=
  match start, stop with
  | some i, some j => some (String.ofList (text.extract i j).toList)
  | _, _ => none

/-- The match that was found, with offsets in bytes. -/
def matchOf (p : Pattern) (text : Array Char) (m : Found) : Match :=
  let before := Text.width (text.extract 0 m.start).toList
  let length := Text.width (text.extract m.start m.stop).toList
  let group := fun n => kept text (m.slots[2 * n]?.getD none) (m.slots[2 * n + 1]?.getD none)
  ⟨before, before + length,
    kept text (some m.start) (some m.stop) :: (List.range p.groups).map fun n => group (n + 1)⟩

/-- All matches in a text, from the left. -/
def findAll (p : Pattern) (text : List Char) : List Match :=
  let chars := text.toArray
  (Search.findAll p.program (2 * (p.groups + 1)) chars).map (p.matchOf chars)

end Pattern

end PhpRename
