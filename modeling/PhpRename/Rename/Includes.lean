import PhpRename.Edit.Basic
import PhpRename.Path.Relation
import PhpRename.Php.Include

/-!
# Includes of a file that moves

An include that names the file is certain to be meant. One whose literal only is the tail of the
file's path may be looked up in some other directory, and is a guess.

* `rewritten`: the literal that names the file in its new place.
* `guessed?`: the literal for the same base directory.
* `includeEdits`: the edit of the include at a site.
-/

namespace PhpRename.Rename

open Php

/-- Two directories are both absent or the same. -/
def sameDirectory (p q : Option Path) : Bool :=
  match p, q with
  | none, none => true
  | some p, some q => p == q
  | _, _ => false

/-- The literal up to its last slash. -/
def throughSlash (literal : String) : String :=
  String.ofList (literal.toList.reverse.dropWhile (· ≠ '/')).reverse

/-- What to write in the file `p` for a target that named the file `old` once that has moved to
`new`. When only the name of the file changes, the directory stays as it is spelled. -/
def rewritten (old new : Path) (t : Target) (p : Path) : String :=
  match (if sameDirectory old.parent? new.parent? then new.fileName? else none) with
  | some name => throughSlash t.literal ++ name
  | none =>
    if (⟨t.literal⟩ : Path).isAbsolute && !t.fromDir then new.slashed
    else
      let relative := (Path.leadingTo p.directory new).slashed
      if t.fromDir then "/" ++ relative else relative

/-- What to write for a target whose literal is the tail of the path `old`, to be read from the
same directory. -/
def guessed? (old new : Path) (t : Target) : Option String :=
  if t.fromDir || (⟨t.literal⟩ : Path).isAbsolute then none
  else
    (Path.baseOfTail? old ⟨t.literal⟩).map fun base =>
      match base.below? new with
      | some tail => (Path.ofParts tail).slashed
      | none => new.slashed

/-- The literal to write for an include target in the file `p`, and how sure it is to be meant. -/
def movedLiteral? (old new : Path) (t : Target) (p : Path) : Option (String × Confidence) :=
  if t.resolve p == old then some (rewritten old new t p, .certain)
  else (guessed? old new t).map (·, .ambiguous)

/-- The edit at the site, if it is the literal of an include of the file `old`. -/
def includeEdits (old new : Path) (s : Site) : List Edit :=
  match s.target? with
  | none => []
  | some t =>
    match movedLiteral? old new t s.path with
    | none => []
    | some (literal, c) =>
      if literal = t.literal then []
      else [⟨s.path, t.offset, t.literal.utf8ByteSize, literal, c, s.token.line⟩]

end PhpRename.Rename
