/-!
# Lexemes of PHP

A *lexeme* is a piece of a source file: a word, a variable, a string, a mark, a comment, a run
of blanks, or text outside the PHP tags. The lexemes of a file are its content, cut up; what a
word means where it stands is left to the grammar.
-/

namespace PhpRename.Php

/-- What a piece of a source file is. -/
inductive Lexeme.Kind where
  | blank
  /-- Text outside the PHP tags. -/
  | markup
  | openTag
  | closeTag
  | comment
  /-- `$name` -/
  | variable
  /-- A whole string literal, under the grammar's name for its form. -/
  | quoted (form : String)
  | integer
  | float
  | word
  /-- An operator or a punctuation mark. -/
  | mark
  /-- Plain text inside backticks. -/
  | shellText
  /-- A character written with a backslash inside backticks. -/
  | shellEscape
deriving DecidableEq, Repr, Inhabited

/-- A piece of a source file. -/
structure Lexeme where
  kind : Lexeme.Kind
  text : String
  /-- Byte offset of the first character. -/
  offset : Nat
  /-- Line of the first character. -/
  line : Nat
deriving Repr, Inhabited

/-- An ASCII letter as a small letter; any other character as it is. -/
def lowerAscii (c : Char) : Char :=
  if 'A' ≤ c ∧ c ≤ 'Z' then Char.ofNat (c.toNat + 32) else c

/-- Text with its ASCII letters as small letters. -/
def lowercase (s : String) : String :=
  s.map lowerAscii

namespace Lexeme

/-- The word in small letters; empty for anything but a word. -/
def keyword (l : Lexeme) : String :=
  match l.kind with
  | .word => lowercase l.text
  | _ => ""

/-- The lexeme is the mark `m`. -/
def isMark (l : Lexeme) (m : String) : Bool :=
  l.kind = .mark && l.text = m

/-- The lexeme is the word `w` in any case. -/
def isWord (l : Lexeme) (w : String) : Bool :=
  l.kind = .word && l.keyword = w

end Lexeme

end PhpRename.Php
