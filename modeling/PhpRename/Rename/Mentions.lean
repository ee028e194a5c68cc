import PhpRename.Doc.Tag
import PhpRename.Edit.Basic
import PhpRename.Mention.Basic
import PhpRename.Php.Include

/-!
# Mentions in comments and strings

* `annotationEdits`: class names in the annotations of doc comments, which are certain.
* `commentEdits`, `stringEdits`: mentions in comments and strings, which are guesses.
-/

namespace PhpRename.Rename

open Php

/-- The edit of `length` bytes, `start` bytes into the token at the site. -/
def replaceWithin (s : Site) (start length : Nat) (new : String) (c : Confidence) : Edit :=
  let offset := s.token.offset + start
  ⟨s.path, offset, length, new, c, s.source.lineOf offset⟩

/-- The edits that write `new` for the class `old` where annotations of the doc comment at the
site name it. -/
def annotationEdits (old new : String) (s : Site) : List Edit :=
  if s.token.kind ≠ .docComment then []
  else
    (Doc.typeLists s.token.text.toList).flatMap fun (start, types) =>
      (Mention.wordPlaces old.toList types).map fun place =>
        replaceWithin s (start + place) old.utf8ByteSize new .certain

/-- The edits at the mentions in the token at the site. -/
def mentionEdits (rules : List Mention.Rule) (s : Site) : List Edit :=
  (Mention.find rules s.token.text.toList).map fun p =>
    replaceWithin s p.start (p.stop - p.start) p.replacement .ambiguous

/-- The edits at the mentions in the comment at the site. -/
def commentEdits (rules : List Mention.Rule) (s : Site) : List Edit :=
  if s.token.isComment then mentionEdits rules s else []

/-- The edits at the mentions in the string at the site, unless it names an included file. -/
def stringEdits (rules : List Mention.Rule) (s : Site) : List Edit :=
  if s.token.kind = .string && s.target?.isNone then mentionEdits rules s else []

end PhpRename.Rename
