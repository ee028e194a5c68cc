import PhpRename.Toml.Item
import PhpRename.Toml.Text

/-!
# Reading TOML documents

A document is a sequence of lines, each a pair, a header, a comment or nothing. Nothing in it may
lie too deep.

* `Toml.value?`: the value at the front of a text.
* `Toml.read?`: the items of a document.
-/

namespace PhpRename.Toml

/-- The number of arrays and braces that may lie in each other, and of parts that a key may have. -/
def maxDepth : Nat := 79

/-- The text after blanks, line ends and comments; `inComment` says that it begins in a comment. -/
def gap? (inComment : Bool) : List Char → Option (List Char)
  | [] => some []
  | '\r' :: '\n' :: cs => gap? false cs
  | c :: cs =>
    if c = '\n' then gap? false cs
    else if inComment then if isTextual c then gap? true cs else none
    else if isBlank c then gap? false cs
    else if c = '#' then gap? true cs
    else if c = '\r' then none
    else some (c :: cs)

/-- The text after the end of a line, before which only blanks and a comment may stand. -/
def lineEnd? (cs : List Char) : Option (List Char) :=
  let cs := cs.dropWhile isBlank
  let cs := if cs.head? = some '#' then cs.dropWhile isTextual else cs
  match cs with
  | [] => some []
  | '\n' :: cs => some cs
  | '\r' :: '\n' :: cs => some cs
  | _ => none

/-- A character of a number, a date or another word. -/
def isWord (c : Char) : Bool :=
  isBare c || c = '+' || c = '.' || c = ':'

/-- The text after a time of day that follows a date after a blank. -/
def afterTime (cs : List Char) : List Char :=
  match cs with
  | ' ' :: rest =>
    let time := rest.takeWhile isWord
    if isZonedTime time then rest.drop time.length else cs
  | _ => cs

/-- The value that a word at the front of a text is, and the text after it. -/
def word? (cs : List Char) : Option (Item × List Char) :=
  let word := cs.takeWhile isWord
  let rest := cs.drop word.length
  if word = "true".toList then some (.flag true, rest)
  else if word = "false".toList then some (.flag false, rest)
  else if isNumber word || isLocalTime word then some (.scalar, rest)
  else if date? word = some [] then some (.scalar, afterTime rest)
  else if isDateTime word then some (.scalar, rest)
  else none

mutual

/-- The value at the front of a text, and the text after it. -/
def value? : Nat → Nat → List Char → Option (Item × List Char)
  | 0, _, _ => none
  | n + 1, depth, cs =>
    match cs, depth with
    | '"' :: _, _ | '\'' :: _, _ =>
      (string? cs).map fun (s, rest) => (.text (String.ofList s), rest)
    | '[' :: rest, depth + 1 => items? n depth [] rest
    | '{' :: rest, depth + 1 =>
      match rest.dropWhile isBlank with
      | '}' :: rest => some (.table .inline [], rest)
      | rest => pairs? n depth [] rest
    | _, _ => word? cs

/-- The values of an array after those that have been read, and the text after it. -/
def items? : Nat → Nat → List Item → List Char → Option (Item × List Char)
  | 0, _, _, _ => none
  | n + 1, depth, items, cs => do
    match ← gap? false cs with
    | ']' :: rest => some (.array items, rest)
    | cs =>
      let (item, cs) ← value? n depth cs
      match ← gap? false cs with
      | ',' :: rest => items? n depth (items ++ [item]) rest
      | ']' :: rest => some (.array (items ++ [item]), rest)
      | _ => none

/-- The pairs of a table in braces after those that have been read, and the text after it. -/
def pairs? : Nat → Nat → Fields → List Char → Option (Item × List Char)
  | 0, _, _, _ => none
  | n + 1, depth, fields, cs => do
    let (keys, cs) ← key? maxDepth cs
    let cs ← after? '=' cs
    let (item, cs) ← value? n depth (cs.dropWhile isBlank)
    let fields ← addPair keys item fields
    match cs.dropWhile isBlank with
    | ',' :: rest => pairs? n depth fields rest
    | '}' :: rest => some (.table .inline fields, rest)
    | _ => none

end

/-- The value at the front of a text, and the text after it. -/
def valueOf? (cs : List Char) : Option (Item × List Char) :=
  value? (2 * cs.length + 2) maxDepth cs

/-- The header at the front of a text after its brackets, and the text of the next lines; `close`
are the brackets at its end. -/
def header? (close : List Char) (cs : List Char) : Option (List String × List Char) := do
  let (keys, cs) ← key? maxDepth cs
  if close.isPrefixOf cs then
    let cs ← lineEnd? (cs.drop close.length)
    some (keys, cs)
  else none

/-- The fields of a document after at most `n` more lines, the next of which stand under a
header. -/
def lines? : Nat → List String → Fields → List Char → Option Fields
  | 0, _, fields, cs => if cs.isEmpty then some fields else none
  | n + 1, header, fields, cs => do
    match cs.dropWhile isBlank with
    | [] => some fields
    | '[' :: '[' :: rest =>
      let (keys, rest) ← header? [']', ']'] rest
      lines? n keys (← openRow keys fields) rest
    | '[' :: rest =>
      let (keys, rest) ← header? [']'] rest
      lines? n keys (← openTable keys fields) rest
    | '#' :: _ | '\n' :: _ | '\r' :: _ => lines? n header fields (← lineEnd? cs)
    | _ =>
      let (keys, cs) ← key? maxDepth cs
      let cs ← after? '=' cs
      let (item, cs) ← valueOf? (cs.dropWhile isBlank)
      lines? n header (← addPairUnder header keys item fields) (← lineEnd? cs)

/-- The items of a document. A byte order mark may come first. -/
def read? (text : String) : Option Fields :=
  let cs := text.toList
  let cs := if cs.head? = some '\uFEFF' then cs.tail else cs
  lines? (cs.length + 1) [] [] cs

end PhpRename.Toml
