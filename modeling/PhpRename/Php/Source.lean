import PhpRename.Path.Basic
import PhpRename.Php.Reader
import PhpRename.Text.Lines

/-!
# Source files

A source file is its content together with its tokens, its scopes and its line starts.
-/

namespace PhpRename.Php

/-- A source file, read. -/
structure Source where
  path : Path
  content : String
  tokens : List Token
  scopes : List Scope
  /-- Byte offsets at which the lines begin. -/
  starts : List Nat

namespace Source

/-- The source file with this content. -/
def read (path : Path) (content : String) : Source :=
  let chars := content.toList
  let (tokens, scopes) := tokenize chars
  ⟨path, content, tokens, scopes, Text.lineStarts chars⟩

/-- The line of a byte offset. -/
def lineOf (s : Source) (offset : Nat) : Nat :=
  Text.lineOf s.starts offset

/-- A line without its ending. -/
def lineText (s : Source) (n : Nat) : String :=
  String.ofList (Text.lineText s.content.toList s.starts n)

/-- The scope a token stands in. -/
def scopeOf (s : Source) (t : Token) : Scope :=
  s.scopes[t.scope]?.getD ⟨none, none⟩

end Source

end PhpRename.Php
