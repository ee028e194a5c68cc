/-!
# The extent of quoted text

A string literal may hold code between braces, that code further strings, and so on. The
extent of a literal is found by keeping a stack of what is still open.

* `closing`: how many characters there are up to the end of what is open.
* `heredoc?`: the extent of a literal that is closed by a word of its own.
-/

namespace PhpRename.Php

/-- Something open inside a string literal. -/
inductive Open where
  /-- Text between single quotes. -/
  | single
  /-- Text in which variables are replaced, closed by this quote. -/
  | double (quote : Char)
  /-- Code between braces. -/
  | code
deriving DecidableEq, Repr

/-- The number of characters up to the one that closes everything open, and including it. -/
def closing : List Open → List Char → Nat
  | [], _ => 0
  | _, [] => 0
  | .single :: rest, '\\' :: _ :: cs => closing (.single :: rest) cs + 2
  | .single :: rest, c :: cs =>
    if c = '\'' then closing rest cs + 1 else closing (.single :: rest) cs + 1
  | .double q :: rest, '\\' :: _ :: cs => closing (.double q :: rest) cs + 2
  | .double q :: rest, '{' :: '$' :: cs => closing (.code :: .double q :: rest) cs + 2
  | .double q :: rest, '$' :: '{' :: cs => closing (.code :: .double q :: rest) cs + 2
  | .double q :: rest, c :: cs =>
    if c = q then closing rest cs + 1 else closing (.double q :: rest) cs + 1
  | .code :: rest, c :: cs =>
    if c = '}' then closing rest cs + 1
    else if c = '{' then closing (.code :: .code :: rest) cs + 1
    else if c = '\'' then closing (.single :: .code :: rest) cs + 1
    else if c = '"' ∨ c = '\x60' then closing (.double c :: .code :: rest) cs + 1
    else closing (.code :: rest) cs + 1

/-- A character that a name may begin with. Beyond ASCII only the blanks that PHP text may hold
are left out. -/
def isNameStart (c : Char) : Bool :=
  c = '_' || ('a' ≤ c && c ≤ 'z') || ('A' ≤ c && c ≤ 'Z') ||
    (c.toNat ≥ 0x80 && c.toNat ≠ 0xA0 && c.toNat ≠ 0x200B && c.toNat ≠ 0x2060 &&
      c.toNat ≠ 0xFEFF)

/-- A decimal digit. -/
def isDigit (c : Char) : Bool :=
  '0' ≤ c && c ≤ '9'

/-- A character that a name may go on with. -/
def isNameRest (c : Char) : Bool :=
  isNameStart c || isDigit c

/-- A space or a tab. -/
def isSpaceOrTab (c : Char) : Bool :=
  c = ' ' || c = '\t'

/-- A blank of ASCII. -/
def isAsciiBlank (c : Char) : Bool :=
  c = ' ' || ('\t' ≤ c && c ≤ '\r')

/-- A blank between tokens. -/
def isBlank (c : Char) : Bool :=
  isAsciiBlank c || c.toNat = 0xA0 || c.toNat = 0x200B || c.toNat = 0x2060 || c.toNat = 0xFEFF

/-- If the text begins with `label` and the name does not go on, the number of characters of the
blanks before it and of the label itself. -/
def closesHeredoc? (label cs : List Char) : Option Nat :=
  let indent := cs.takeWhile isSpaceOrTab
  let rest := cs.drop indent.length
  if label.isPrefixOf rest && !(rest.drop label.length).head?.any isNameRest then
    some (indent.length + label.length)
  else none

/-- The number of characters up to the end of the closing label, for text that begins at the
start of a line. Without a closing label it is all of the text. -/
def heredocBody (label : List Char) (lineStart : Bool) : List Char → Nat
  | [] => 0
  | c :: cs =>
    match (if lineStart then closesHeredoc? label (c :: cs) else none) with
    | some n => n
    | none => heredocBody label (c = '\n') cs + 1

/-- For text just after `<<<`: the form of the literal and the number of characters up to its
end. `none` when no label follows. -/
def heredoc? (cs : List Char) : Option (String × Nat) :=
  let gap := cs.takeWhile isSpaceOrTab
  let rest := cs.drop gap.length
  let (quotes, form, labelled) :=
    match rest with
    | '\'' :: tail => (2, "nowdoc", tail)
    | '"' :: tail => (2, "heredoc", tail)
    | tail => (0, "heredoc", tail)
  if !labelled.head?.any isNameStart then none
  else
    let label := labelled.takeWhile isNameRest
    let head := gap.length + quotes + label.length
    let after := cs.drop head
    let line := (after.takeWhile (· ≠ '\n')).length
    match after.drop line with
    | [] => none
    | _ :: body => some (form, head + line + 1 + heredocBody label true body)

end PhpRename.Php
