import PhpRename.Toml.Scalar

/-!
# Strings of TOML

A string stands between quotes, or between three quotes each, where it may go over several lines.
In double quotes a backslash has a meaning: it announces a character, or at the end of a line it
takes away all blanks and line ends up to the next character.

* `Toml.string?`: the string at the front of a text.
* `Toml.key?`: the key at the front of a text, which may have several parts.
-/

namespace PhpRename.Toml

/-- How a string is written. -/
structure Form where
  quote : Char
  /-- A backslash has a meaning. -/
  escapes : Bool
  /-- There are three quotes at each end. -/
  manyLines : Bool

/-- Where the reading of a string stands. -/
inductive State where
  | plain
  | escape
  /-- So many digits of a code point are still to come. -/
  | code (left value : Nat)
  /-- So many quotes have come one after the other. -/
  | quotes (count : Nat)
  /-- A backslash takes away blanks, and the line has ended. -/
  | trim (ended : Bool)
  /-- A carriage return has come, which must be followed by a line end. -/
  | carriage (trimming : Bool)
  | closed

/-- What a character adds to a string. -/
inductive Step where
  | go (out : List Char) (next : State)
  /-- The string has ended before the character. -/
  | stop (out : List Char)

/-- A character that a comment or a string may hold. -/
def isTextual (c : Char) : Bool :=
  c = '\t' || (' ' ≤ c && c ≤ '~') || 0x80 ≤ c.toNat

def isBlank (c : Char) : Bool :=
  c = ' ' || c = '\t'

/-- What a character means that follows no special one; `out` comes before it. -/
def plainStep (f : Form) (out : List Char) (c : Char) : Option Step :=
  if c = f.quote then some (.go out (if f.manyLines then .quotes 1 else .closed))
  else if c = '\\' ∧ f.escapes then some (.go out .escape)
  else if c = '\n' ∧ f.manyLines then some (.go (out ++ ['\n']) .plain)
  else if c = '\r' ∧ f.manyLines then some (.go out (.carriage false))
  else if isTextual c then some (.go (out ++ [c]) .plain)
  else none

/-- The character that a letter after a backslash stands for. -/
def escaped? (c : Char) : Option Char :=
  match c with
  | 'b' => some '\x08'
  | 't' => some '\t'
  | 'n' => some '\n'
  | 'f' => some '\x0c'
  | 'r' => some '\r'
  | '"' => some '"'
  | '\\' => some '\\'
  | _ => none

/-- What a character after a backslash means. -/
def escapeStep (f : Form) (c : Char) : Option Step :=
  if c = 'u' then some (.go [] (.code 4 0))
  else if c = 'U' then some (.go [] (.code 8 0))
  else if f.manyLines ∧ isBlank c then some (.go [] (.trim false))
  else if f.manyLines ∧ c = '\n' then some (.go [] (.trim true))
  else if f.manyLines ∧ c = '\r' then some (.go [] (.carriage true))
  else (escaped? c).map fun d => .go [d] .plain

/-- The digit of a code point. The last one completes the character, if there is such a one. -/
def codeStep (left value : Nat) (c : Char) : Option Step :=
  let value := value * 16 + digitValue c
  if !isHexadecimal c then none
  else if 1 < left then some (.go [] (.code (left - 1) value))
  else if value < 0xD800 ∨ (0xE000 ≤ value ∧ value < 0x110000) then
    some (.go [Char.ofNat value] .plain)
  else none

/-- The step that a character is. Of a run of five quotes the last three end the string. -/
def step (f : Form) : State → Char → Option Step
  | .plain, c => plainStep f [] c
  | .escape, c => escapeStep f c
  | .code left value, c => codeStep left value c
  | .quotes n, c =>
    if c = f.quote then if n < 5 then some (.go [] (.quotes (n + 1))) else none
    else if n < 3 then plainStep f (List.replicate n f.quote) c
    else some (.stop (List.replicate (n - 3) f.quote))
  | .trim ended, c =>
    if isBlank c then some (.go [] (.trim ended))
    else if c = '\n' then some (.go [] (.trim true))
    else if c = '\r' then some (.go [] (.carriage true))
    else if ended then plainStep f [] c
    else none
  | .carriage trimming, c =>
    if c ≠ '\n' then none
    else if trimming then some (.go [] (.trim true))
    else some (.go ['\n'] .plain)
  | .closed, _ => some (.stop [])

/-- What is still to be added where the text ends. -/
def atEnd? (f : Form) : State → Option (List Char)
  | .quotes n => if n < 3 then none else some (List.replicate (n - 3) f.quote)
  | .closed => some []
  | _ => none

/-- The string up to its end, and the text after it. -/
def scan? (f : Form) : State → List Char → Option (List Char × List Char)
  | st, [] => (atEnd? f st).map fun out => (out, [])
  | st, c :: cs =>
    match step f st c with
    | none => none
    | some (.stop out) => some (out, c :: cs)
    | some (.go out next) => (scan? f next cs).map fun (s, rest) => (out ++ s, rest)

/-- The text after a line end at its front. -/
def dropLineEnd : List Char → List Char
  | '\n' :: cs => cs
  | '\r' :: '\n' :: cs => cs
  | cs => cs

/-- The string on one line at the front of a text, and the text after it. -/
def lineString? : List Char → Option (List Char × List Char)
  | '"' :: cs => scan? ⟨'"', true, false⟩ .plain cs
  | '\'' :: cs => scan? ⟨'\'', false, false⟩ .plain cs
  | _ => none

/-- The string at the front of a text, and the text after it. -/
def string? : List Char → Option (List Char × List Char)
  | '"' :: '"' :: '"' :: cs => scan? ⟨'"', true, true⟩ .plain (dropLineEnd cs)
  | '\'' :: '\'' :: '\'' :: cs => scan? ⟨'\'', false, true⟩ .plain (dropLineEnd cs)
  | cs => lineString? cs

/-- A character of a key without quotes. -/
def isBare (c : Char) : Bool :=
  isDecimal c || ('a' ≤ c && c ≤ 'z') || ('A' ≤ c && c ≤ 'Z') || c = '-' || c = '_'

/-- One part of a key. -/
def keyPart? (cs : List Char) : Option (List Char × List Char) :=
  let bare := cs.takeWhile isBare
  if bare.isEmpty then lineString? cs else some (bare, cs.drop bare.length)

/-- The parts of a key, at most `n`, between points, and the text after them and the blanks there. -/
def key? : Nat → List Char → Option (List String × List Char)
  | 0, _ => none
  | n + 1, cs => do
    let (part, cs) ← keyPart? (cs.dropWhile isBlank)
    match cs.dropWhile isBlank with
    | '.' :: cs => (key? n cs).map fun (parts, rest) => (String.ofList part :: parts, rest)
    | rest => some ([String.ofList part], rest)

end PhpRename.Toml
