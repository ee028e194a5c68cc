import PhpRename.Php.Lexeme
import PhpRename.Php.Number
import PhpRename.Text.Offset

/-!
# Cutting a source into lexemes

The cutter walks over the content once. At each place it decides what begins there and how far
it reaches, and cuts at least one character off; so the lexemes, one after the other, are the
content again, whatever the content is.

* `Cutter.next`: what begins at a place.
* `Cutter.run`: the lexemes of a text.
-/

namespace PhpRename.Php

open Text

/-- What the text at a place belongs to. -/
inductive Region where
  /-- Outside the PHP tags. -/
  | markup
  | code
  /-- Between backticks. -/
  | shell
  /-- Code in braces between backticks, with the number of braces open inside it. -/
  | braces (depth : Nat)
  /-- The index in brackets after a variable between backticks. -/
  | index
  /-- The member name after an arrow between backticks. -/
  | member
  /-- After the `$` of a variable whose name is computed in braces between backticks. -/
  | dollar
deriving DecidableEq, Repr

/-- What the cutter remembers of the text it has passed. -/
structure Cutter where
  region : Region
  /-- The regions around the innermost one. -/
  outer : List Region
  /-- An operand has just ended. -/
  afterOperand : Bool
deriving Repr

/-- What begins at a place. -/
structure Cutter.Piece where
  kind : Lexeme.Kind
  /-- Number of characters after the first one. -/
  extra : Nat
  next : Cutter

namespace Cutter

/-- The state at the front of a file. -/
def start : Cutter :=
  ⟨.markup, [], false⟩

def enter (st : Cutter) (r : Region) : Cutter :=
  ⟨r, st.region :: st.outer, false⟩

def leave (st : Cutter) : Cutter :=
  match st.outer with
  | [] => { st with afterOperand := true }
  | r :: rest => ⟨r, rest, true⟩

/-- Words after which an operand is still to come. -/
def expectsOperand : List String :=
  ["return", "echo", "print", "case", "and", "or", "xor", "yield", "throw", "clone", "include",
   "include_once", "require", "require_once", "else", "do"]

/-- The number of characters of a line comment after the sign that opens it. A `?` that ends its
line closes the comment together with the line end, and `?>` ends it before the `?`. -/
def lineComment : List Char → Nat
  | [] => 0
  | '?' :: cs =>
    match cs with
    | [] => 0
    | '\n' :: _ => 2
    | '\r' :: '\n' :: _ => 3
    | c :: rest => if c = '>' ∨ c = '\r' then 0 else lineComment rest + 2
  | c :: cs => if c = '\n' ∨ c = '\r' then 0 else lineComment cs + 1

/-- The number of characters up to the end of a block comment. -/
def blockComment : List Char → Nat
  | [] => 0
  | '*' :: '/' :: _ => 2
  | _ :: cs => blockComment cs + 1

/-- Marks of more than one character, the longer ones first. -/
def longMarks : List (List Char) :=
  ["?->", "<=>", "**=", "...", "<<=", ">>=", "===", "!==", "??=",
   "->", "=>", "::", "==", "!=", "<>", "<=", ">=", "&&", "||", "??", "|>", "++", "--", "+=", "-=",
   "*=", "/=", ".=", "%=", "&=", "|=", "^=", "<<", ">>", "**", "#["].map String.toList

/-- The number of characters of the mark at the front of the text. -/
def markLength (cs : List Char) : Nat :=
  match longMarks.find? (·.isPrefixOf cs) with
  | some m => m.length
  | none => 1

/-- The number of characters of the text up to an opening tag. -/
def markupLength : List Char → Nat
  | [] => 0
  | '<' :: '?' :: _ => 0
  | _ :: cs => markupLength cs + 1

/-- Blanks at the end of a text that come right after a `<` are not part of it. -/
def trimMarkup (cs : List Char) : List Char :=
  let back := cs.reverse.dropWhile isAsciiBlank
  if back.head? = some '<' then back.reverse else cs

/-- The number of characters of an opening tag. -/
def openTagLength (cs : List Char) : Nat :=
  match cs with
  | '<' :: '?' :: '=' :: _ => 3
  | '<' :: '?' :: p :: h :: q :: _ =>
    if [p, h, q].map lowerAscii = ['p', 'h', 'p'] then 5 else 2
  | _ => 2

/-- The number of characters of the escape that begins with a backslash at the front of the
text; 0 when there is none. -/
def escapeLength (cs : List Char) : Nat :=
  match cs with
  | '\\' :: c :: rest =>
    if "nrtvef\\$\"\x60".toList.contains c then 2
    else if '0' ≤ c ∧ c ≤ '7' then
      2 + ((rest.take 2).takeWhile fun d => '0' ≤ d && d ≤ '7').length
    else if c = 'x' then
      match ((rest.take 2).takeWhile fun d => isRadixRest d && d ≠ '_').length with
      | 0 => 0
      | n => 2 + n
    else if c = 'u' then
      match rest with
      | '{' :: digits =>
        let n := (digits.takeWhile fun d => isRadixRest d && d ≠ '_').length
        if n > 0 ∧ (digits.drop n).head? = some '}' then 4 + n else 0
      | _ => 0
    else 0
  | _ => 0

/-- Between backticks, plain text ends here. A backslash before a `u` ends it whether or not the
two begin an escape. -/
def endsShellText (afterVariable : Bool) (cs : List Char) : Bool :=
  match cs with
  | '\x60' :: _ => true
  | '$' :: c :: _ => isNameStart c || c = '{'
  | '{' :: '$' :: _ => true
  | '\\' :: 'u' :: _ => true
  | '\\' :: _ => escapeLength cs > 0
  | '[' :: _ => afterVariable
  | '-' :: '>' :: c :: _ => afterVariable && isNameStart c
  | '?' :: '-' :: '>' :: c :: _ => afterVariable && isNameStart c
  | _ => false

/-- The number of characters of plain text between backticks. A backslash takes away the meaning
of the brace after it. -/
def shellTextLength : List Char → Nat
  | [] => 0
  | '\\' :: '{' :: cs => shellTextLength cs + 2
  | c :: cs => if endsShellText false (c :: cs) then 0 else shellTextLength cs + 1

/-- What begins outside the tags. -/
def nextMarkup (st : Cutter) (cs : List Char) : Piece :=
  match cs with
  | '<' :: '?' :: _ => ⟨.openTag, openTagLength cs - 1, { st with region := .code, afterOperand := false }⟩
  | c :: _ =>
    if isAsciiBlank c then ⟨.blank, (cs.takeWhile isAsciiBlank).length - 1, st⟩
    else ⟨.markup, (trimMarkup (cs.take (markupLength cs))).length - 1, st⟩
  | [] => ⟨.blank, 0, st⟩

/-- A mark begins here. -/
def nextMark (st : Cutter) (cs : List Char) : Piece :=
  let n := markLength cs
  let operand := match cs with
    | ')' :: _ => true
    | ']' :: _ => true
    | '+' :: '+' :: _ => st.afterOperand
    | '-' :: '-' :: _ => st.afterOperand
    | _ => false
  let after : Cutter := match st.region, cs with
    | .braces d, '{' :: _ => { st with region := .braces (d + 1), afterOperand := false }
    | .braces 0, '}' :: _ => { st.leave with afterOperand := false }
    | .braces (d + 1), '}' :: _ => { st with region := .braces d, afterOperand := false }
    | .index, ']' :: _ => st.leave
    | .dollar, '{' :: _ => { st with region := .braces 0, afterOperand := false }
    | _, _ => { st with afterOperand := operand }
  ⟨.mark, n - 1, after⟩

/-- A word begins here. `yield from` is one mark. -/
def nextWord (st : Cutter) (cs : List Char) : Piece :=
  let word := cs.takeWhile isNameRest
  let low := String.ofList (word.map lowerAscii)
  let from_ := (cs.drop word.length).take 5
  let after := (cs.drop (word.length + 5)).head?
  let st' := if st.region = .member then st.leave else st
  if low = "yield" ∧ from_.map lowerAscii = " from".toList ∧ !after.any isNameRest then
    ⟨.mark, word.length + 4, { st' with afterOperand := false }⟩
  else ⟨.word, word.length - 1, { st' with afterOperand := !expectsOperand.contains low }⟩

/-- What begins in code. -/
def nextCode (st : Cutter) (cs : List Char) : Piece :=
  let operand := { st with afterOperand := true }
  match cs with
  | [] => ⟨.blank, 0, st⟩
  | '?' :: '>' :: _ => ⟨.closeTag, 1, { st with region := .markup, afterOperand := false }⟩
  | '#' :: '[' :: _ => nextMark st cs
  | '#' :: rest =>
    ⟨.comment, (if rest.head? = some '?' then 0 else lineComment rest), st⟩
  | '/' :: '/' :: rest => ⟨.comment, 1 + lineComment rest, st⟩
  | '/' :: '*' :: rest => ⟨.comment, 1 + blockComment rest, st⟩
  | '\'' :: rest => ⟨.quoted "string", closing [.single] rest, operand⟩
  | '"' :: rest => ⟨.quoted "encapsed_string", closing [.double '"'] rest, operand⟩
  | '\x60' :: _ =>
    ⟨.mark, 0, st.enter .shell⟩
  | '<' :: '<' :: '<' :: rest =>
    match heredoc? rest with
    | some (form, n) => ⟨.quoted form, 2 + n, operand⟩
    | none => nextMark st cs
  | '$' :: c :: rest =>
    if isNameStart c then ⟨.variable, 1 + (rest.takeWhile isNameRest).length, operand⟩
    else nextMark st cs
  | '.' :: d :: _ =>
    if isDigit d && !st.afterOperand then ⟨.float, (number cs).2 - 1, operand⟩ else nextMark st cs
  | c :: rest =>
    if isBlank c then ⟨.blank, (rest.takeWhile isBlank).length, st⟩
    else if isDigit c then
      let (float, n) := number cs
      ⟨if float then .float else .integer, n - 1, operand⟩
    else if (c = 'b' ∨ c = 'B') ∧ rest.head? = some '\'' then
      ⟨.quoted "string", 1 + closing [.single] (rest.drop 1), operand⟩
    else if (c = 'b' ∨ c = 'B') ∧ rest.head? = some '"' then
      ⟨.quoted "encapsed_string", 1 + closing [.double '"'] (rest.drop 1), operand⟩
    else if isNameStart c then nextWord st cs
    else nextMark st cs

/-- What begins between backticks. -/
def nextShell (st : Cutter) (cs : List Char) : Piece :=
  let plain := { st with afterOperand := false }
  match cs with
  | [] => ⟨.blank, 0, st⟩
  | '\x60' :: _ => ⟨.mark, 0, st.leave⟩
  | c :: _ =>
    if escapeLength cs > 0 then ⟨.shellEscape, escapeLength cs - 1, plain⟩
    else if !endsShellText st.afterOperand cs then
      ⟨.shellText, shellTextLength cs - 1, plain⟩
    else
      match cs with
      | '\\' :: _ => ⟨.shellText, 1, plain⟩
      | '$' :: d :: more =>
        if d = '{' then ⟨.mark, 0, plain.enter .dollar⟩
        else ⟨.variable, 1 + (more.takeWhile isNameRest).length, { st with afterOperand := true }⟩
      | '[' :: _ => ⟨.mark, 0, st.enter .index⟩
      | '-' :: _ => ⟨.mark, 1, st.enter .member⟩
      | '?' :: _ => ⟨.mark, 2, st.enter .member⟩
      | _ => if c = '{' then ⟨.mark, 0, plain.enter (.braces 0)⟩ else ⟨.shellText, 0, plain⟩

/-- What begins at the front of the text. -/
def next (st : Cutter) (cs : List Char) : Piece :=
  match st.region with
  | .markup => nextMarkup st cs
  | .shell => nextShell st cs
  | _ => nextCode st cs

/-- Number of newlines in a text. -/
def newlines (cs : List Char) : Nat :=
  cs.count '\n'

/-- The lexemes of the text that begins at byte `offset` and in line `line` of its file. -/
def run (st : Cutter) (offset line : Nat) : List Char → List Lexeme
  | [] => []
  | c :: cs =>
    let piece := st.next (c :: cs)
    let chars := c :: cs.take piece.extra
    ⟨piece.kind, String.ofList chars, offset, line⟩ ::
      run piece.next (offset + width chars) (line + newlines chars) (cs.drop piece.extra)
termination_by cs => cs.length

end Cutter

/-- The mark that tells the byte order of a file, which may stand at its front. -/
def byteOrderMark : Char := '\uFEFF'

/-- The lexemes of the content of a file. A byte order mark at its front counts as a blank. -/
def lexemes (content : List Char) : List Lexeme :=
  match content with
  | [] => []
  | c :: cs =>
    if c = byteOrderMark then
      ⟨.blank, String.singleton c, 0, 1⟩ :: Cutter.start.run (width [c]) 1 cs
    else Cutter.start.run 0 1 content

end PhpRename.Php
