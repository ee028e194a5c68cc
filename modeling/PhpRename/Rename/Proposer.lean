import PhpRename.Rename.Includes
import PhpRename.Rename.Mentions
import PhpRename.Rename.References

/-!
# Proposers

A proposer looks at every site of a file and proposes edits there.

* `Proposer.edits`: what a proposer proposes at a site.
* `Proposer.ofClass`, `ofMethod`, `ofFile`: the proposers that a renaming needs.
-/

namespace PhpRename

/-- What proposes edits. -/
inductive Proposer where
  /-- The names of a class in code. -/
  | classes (old new : String)
  /-- The names of a class in annotations. -/
  | annotations (old new : String)
  | comments (rules : List Mention.Rule)
  | strings (rules : List Mention.Rule)
  /-- The declaration and the calls of a method. -/
  | methods (cls old new : String)
  /-- The includes of a file that moves. -/
  | includes (old new : Path)

namespace Proposer

/-- What the proposer proposes at a site. -/
def edits (p : Proposer) (db : Symbols) (s : Php.Site) : List Edit :=
  match p with
  | classes old new => Rename.classEdits old new s
  | annotations old new => Rename.annotationEdits old new s
  | comments rules => Rename.commentEdits rules s
  | strings rules => Rename.stringEdits rules s
  | methods cls old new => Rename.methodEdits cls old new db s
  | includes old new => Rename.includeEdits old new s

/-- What a class needs to be renamed. -/
def ofClass (old new : String) : List Proposer :=
  [classes old new, annotations old new, comments (Mention.ofClass old new),
   strings (Mention.ofClass old new)]

/-- What a method needs to be renamed. -/
def ofMethod (cls old new : String) : List Proposer :=
  [methods cls old new, comments (Mention.ofMethod cls old new),
   strings (Mention.ofMethod cls old new)]

/-- What a file needs to be moved. -/
def ofFile (old new : Path) : List Proposer :=
  [includes old new]

end Proposer

end PhpRename
