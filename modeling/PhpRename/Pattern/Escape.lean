import PhpRename.Pattern.Expr
import PhpRename.Pattern.Property

/-!
# Reading escapes

What a backslash and the characters after it stand for in a pattern.

* `Flags`: how the text of a pattern is to be understood.
* `escape?`: the atom that an escape stands for, and the text after it.
-/

namespace PhpRename.Pattern

open Unicode (isSpace)

/-- How the text of a pattern is to be understood. -/
structure Flags where
  /-- Case does not matter. -/
  caseless : Bool
  /-- `^` and `$` match at every line. -/
  manyLines : Bool
  /-- `.` matches a line end too. -/
  dotAll : Bool
  /-- A repetition takes as little as it can, unless it is marked. -/
  swapGreed : Bool
  unicode : Bool
  /-- A carriage return ends a line too. -/
  crlf : Bool
  /-- Blanks and comments in the pattern mean nothing. -/
  verbose : Bool
deriving DecidableEq, Repr

namespace Flags

/-- How a pattern is understood unless it says otherwise. -/
def plain : Flags :=
  ⟨false, false, false, false, true, false, false⟩

/-- The text after blanks and comments; `inComment` says that it begins within a comment. -/
def skip (inComment : Bool) : List Char → List Char
  | [] => []
  | c :: cs =>
    if inComment then skip (c ≠ '\n') cs
    else if isSpace c then skip false cs
    else if c = '#' then skip true cs
    else c :: cs

/-- The text after what means nothing. -/
def blanks (f : Flags) (cs : List Char) : List Char :=
  if f.verbose then skip false cs else cs

/-- The class `s`, without regard to case if case does not matter. -/
def fold (f : Flags) (s : CharClass) : CharClass :=
  if !f.caseless then s
  else if f.unicode then .caseless s
  else .asciiCaseless s

end Flags

/-- What a character or an escape stands for. -/
inductive Atom where
  /-- One character; `isByte` says that it is written as a byte. -/
  | literal (c : Char) (isByte : Bool)
  | set (s : CharClass)
  | dot
  | look (l : Look)

/-- A digit of base sixteen. -/
def isHex (c : Char) : Bool :=
  ('0' ≤ c && c ≤ '9') || ('a' ≤ c && c ≤ 'f') || ('A' ≤ c && c ≤ 'F')

/-- The character with a given code point, if there is one. -/
def charOf? (n : Nat) : Option Char :=
  if n < 0xD800 ∨ (0xE000 ≤ n ∧ n < 0x110000) then some (Char.ofNat n) else none

/-- So many digits of base sixteen. -/
def hexDigits? (f : Flags) : Nat → List Char → Option (List Char × List Char)
  | 0, cs => some ([], cs)
  | _ + 1, [] => none
  | n + 1, c :: cs =>
    if isHex c then (hexDigits? f n (f.blanks cs)).map fun (ds, rest) => (c :: ds, rest) else none

/-- The characters up to a closing brace that belong to it, and the text after the brace. At most
`n` characters are read. -/
def braced? (f : Flags) : Nat → List Char → Option (List Char × List Char)
  | 0, _ => none
  | n + 1, cs =>
    match f.blanks cs with
    | [] => none
    | c :: rest =>
      if c = '}' then some ([], rest)
      else (braced? f n rest).map fun (ds, rest) => (c :: ds, rest)

/-- The character that is written by its code point, after the letter that announces it. -/
def codePoint? (f : Flags) (letter : Char) (cs : List Char) : Option (Atom × List Char) :=
  match f.blanks cs with
  | [] => none
  | c :: rest =>
    if c = '{' then do
      let (digits, rest) ← braced? f (rest.length + 1) rest
      if digits = [] ∨ !digits.all isHex then none
      else
        let char ← charOf? (Unicode.Ranges.number digits)
        return (.literal char false, f.blanks rest)
    else do
      let count := if letter = 'x' then 2 else if letter = 'u' then 4 else 8
      let (digits, rest) ← hexDigits? f count (c :: rest)
      let char ← charOf? (Unicode.Ranges.number digits)
      return (.literal char (letter = 'x'), rest)

/-- Splits a text at the first place where `mark` stands. -/
def splitAtMark? (mark : List Char) : List Char → Option (List Char × List Char)
  | [] => none
  | c :: cs =>
    if mark.isPrefixOf (c :: cs) then some ([], (c :: cs).drop mark.length)
    else (splitAtMark? mark cs).map fun (before, after) => (c :: before, after)

/-- The class that a property names, and whether its complement is meant. -/
def propertyNamed? (text : List Char) : Option (CharClass × Bool) :=
  match splitAtMark? ['!', '='] text with
  | some (name, value) =>
    (propertyValue? (String.ofList name) (String.ofList value)).map (·, true)
  | none =>
    match splitAtMark? [':'] text <|> splitAtMark? ['='] text with
    | some (name, value) =>
      (propertyValue? (String.ofList name) (String.ofList value)).map (·, false)
    | none => (property? (String.ofList text)).map (·, false)

/-- The class of the characters with a property, after the letter that announces it. -/
def propertyClass? (f : Flags) (negated : Bool) (cs : List Char) : Option (Atom × List Char) := do
  if !f.unicode then none
  else
    let (text, rest) ←
      match f.blanks cs with
      | [] => none
      | c :: rest =>
        if c = '{' then braced? f (rest.length + 1) rest
        else if c = '\\' then none
        else some ([c], f.blanks rest)
    let (s, other) ← propertyNamed? text
    let s := f.fold s
    return (.set (if negated != other then .complement s else s), rest)

/-- The class of words, digits or blanks. -/
def shorthand? (f : Flags) (letter : Char) : Option CharClass :=
  let pick := fun (full ascii : CharClass) => if f.unicode then full else ascii
  match letter with
  | 'd' => some (pick .digit .asciiDigit)
  | 's' => some (pick .space .asciiSpace)
  | 'w' => some (pick .word .asciiWord)
  | 'D' => some (.complement (pick .digit .asciiDigit))
  | 'S' => some (.complement (pick .space .asciiSpace))
  | 'W' => some (.complement (pick .word .asciiWord))
  | _ => none

/-- A letter or a dash. -/
def isEdgeNameChar (c : Char) : Bool :=
  ('a' ≤ c && c ≤ 'z') || ('A' ≤ c && c ≤ 'Z') || c = '-'

/-- What may follow `\b`: the name of a special condition in braces. `none` when the name is not
known or not closed. -/
def edgeAtom? (f : Flags) (cs : List Char) : Option (Atom × List Char) :=
  let ascii := !f.unicode
  match cs with
  | '{' :: rest =>
    match f.blanks rest with
    | [] => none
    | c :: more =>
      if !isEdgeNameChar c then some (.look (.edge ascii), cs)
      else do
        let (name, rest) ← braced? f (more.length + 2) (c :: more)
        match String.ofList name with
        | "start" => some (.look (.wordStart ascii), rest)
        | "end" => some (.look (.wordEnd ascii), rest)
        | "start-half" => some (.look (.halfStart ascii), rest)
        | "end-half" => some (.look (.halfEnd ascii), rest)
        | _ => none
  | _ => some (.look (.edge ascii), cs)

/-- A character of ASCII that stands for itself after a backslash. -/
def isEscapable (c : Char) : Bool :=
  c.toNat < 0x80 && (!Unicode.isAsciiWord c || c = '_') && c ≠ '<' && c ≠ '>'

/-- The control character that a letter stands for. -/
def control? (c : Char) : Option Char :=
  match c with
  | 'a' => some (Char.ofNat 0x07)
  | 'f' => some (Char.ofNat 0x0C)
  | 't' => some '\t'
  | 'n' => some '\n'
  | 'r' => some '\r'
  | 'v' => some (Char.ofNat 0x0B)
  | _ => none

/-- The atom that the text after a backslash stands for, and the text after it. -/
def escape? (f : Flags) (cs : List Char) : Option (Atom × List Char) :=
  let ascii := !f.unicode
  match cs with
  | [] => none
  | c :: rest =>
    if c = 'x' ∨ c = 'u' ∨ c = 'U' then codePoint? f c rest
    else if c = 'p' ∨ c = 'P' then propertyClass? f (c = 'P') rest
    else
      match shorthand? f c with
      | some s => some (.set s, rest)
      | none =>
        if isEscapable c then some (.literal c false, rest)
        else
          match control? c with
          | some d => some (.literal d false, rest)
          | none =>
            match c with
            | 'A' => some (.look .textStart, rest)
            | 'z' => some (.look .textEnd, rest)
            | 'b' => edgeAtom? f rest
            | 'B' => some (.look (.notEdge ascii), rest)
            | '<' => some (.look (.wordStart ascii), rest)
            | '>' => some (.look (.wordEnd ascii), rest)
            | _ => none

end PhpRename.Pattern
