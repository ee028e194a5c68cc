import PhpRename.Php.Lexeme

/-!
# Tokens of PHP

A token is a lexeme with its meaning: what kind of thing it is, the name that the PHP grammar
has for it, and the scope it stands in. Blanks give no tokens.
-/

namespace PhpRename.Php

/-- What a token is. -/
inductive Token.Kind where
  /-- A class, function, method, constant or property name. -/
  | name
  /-- `$name` -/
  | variable
  | comment
  /-- A comment that begins with two stars. -/
  | docComment
  /-- A string literal with its quotes. -/
  | string
  | keyword
  | punct
  /-- Numbers, tags, text outside the tags, and some words. -/
  | other
deriving DecidableEq, Repr, Inhabited

/-- A token of a source file. -/
structure Token where
  kind : Token.Kind
  /-- The grammar's name for it: a keyword in small letters, a mark as it is. -/
  node : String
  text : String
  /-- Byte offset of the first character. -/
  offset : Nat
  /-- Line of the first character. -/
  line : Nat
  /-- Position of its scope in the file's list of scopes. -/
  scope : Nat
deriving DecidableEq, Repr, Inhabited

/-- What part of a program a token stands in. -/
structure Scope where
  cls : Option String
  function : Option String
deriving DecidableEq, Repr, Inhabited

namespace Token

/-- The offset just after the token. -/
def stop (t : Token) : Nat :=
  t.offset + t.text.utf8ByteSize

/-- The token is the mark `m`. -/
def isPunct (t : Token) (m : String) : Bool :=
  t.kind = .punct && t.text = m

def isComment (t : Token) : Bool :=
  t.kind = .comment || t.kind = .docComment

/-- The token is the keyword `w`, in any case. -/
def isKeyword (t : Token) (w : String) : Bool :=
  t.kind = .keyword && lowercase t.node = lowercase w

/-- The token is an arrow to a member of an object. -/
def isMemberAccess (t : Token) : Bool :=
  t.isPunct "->" || t.isPunct "?->"

/-- The text between the quotes of a plain string literal. A literal between double quotes is
plain when nothing in it is replaced. -/
def literal? (t : Token) : Option String :=
  if t.kind ≠ .string then none
  else
    match t.text.toList with
    | quote :: rest =>
      let inner := rest.dropLast
      if rest.getLast? ≠ some quote then none
      else if quote = '\'' then some (String.ofList inner)
      else if quote = '"' && !inner.contains '$' && !inner.contains '\\' then
        some (String.ofList inner)
      else none
    | [] => none

end Token

end PhpRename.Php
