import PhpRename.Text.Scan
import PhpRename.Unicode.Word

/-!
# Annotations in doc comments

An annotation is an `@`, a tag, blanks, and what the tag is about.

* `typedVars`: the types that `@param` and `@var` give, with the variables they give them to.
* `typeLists`: the places where an annotation writes the names of classes.
-/

namespace PhpRename.Doc

open Text Unicode

/-- The text after blanks; `none` when it does not begin with a blank. -/
def afterBlanks? (cs : List Char) : Option (List Char) :=
  if cs.head?.any isSpace then some (cs.dropWhile isSpace) else none

/-- The tag at the front of the text, and the text after the blanks behind it. -/
def tagged? (tags : List String) (cs : List Char) : Option (String × List Char) :=
  match cs with
  | '@' :: rest =>
    tags.findSome? fun tag => do
      let more ← stripStart? tag.toList rest
      let content ← afterBlanks? more
      return (tag, content)
  | _ => none

/-- A type that an annotation gives to a variable, or to the variable that follows. -/
structure TypedVar where
  tag : String
  type : String
  name? : Option String
deriving DecidableEq, Repr

/-- The variable at the front of the text behind blanks, with the text after it. It may be
written as a reference and as the last parameter of many. -/
def namedVar? (cs : List Char) : Option (String × List Char) := do
  let cs ← afterBlanks? cs
  let cs := (stripStart? ['&'] cs).getD cs
  let cs := (stripStart? ['.', '.', '.'] cs).getD cs
  let cs ← stripStart? ['$'] cs
  let name := cs.takeWhile isWord
  if name = [] then none else some (String.ofList ('$' :: name), cs.drop name.length)

/-- The annotation of a type at the front of the text, and its number of characters. -/
def typedVar? (_before cs : List Char) : Option (TypedVar × Nat) := do
  let (tag, rest) ← tagged? ["param", "var"] cs
  let type := rest.takeWhile fun c => !isSpace c && c ≠ '$' && c ≠ '*'
  if type = [] then none
  else
    let rest := rest.drop type.length
    match namedVar? rest with
    | some (name, rest) =>
      some (⟨tag, String.ofList type, some name⟩, cs.length - rest.length)
    | none => some (⟨tag, String.ofList type, none⟩, cs.length - rest.length)

/-- The types that the text gives to variables, in order. -/
def typedVars (text : List Char) : List TypedVar :=
  (scan typedVar? [] 0 text).map Prod.snd

/-- Tags that are followed by names of classes. -/
def classTags : List String :=
  ["param", "var", "return", "throws", "property", "property-read", "property-write", "method",
   "see", "uses", "mixin"]

/-- A character of a list of types. -/
def isTypeChar (c : Char) : Bool :=
  isWord c || "\\|?[]<>,()".toList.contains c

/-- The list of types at the front of the text: the number of bytes before it, the list itself,
and the number of characters up to its end. -/
def typeList? (_before cs : List Char) : Option ((Nat × List Char) × Nat) := do
  let (_, rest) ← tagged? classTags cs
  let types := rest.takeWhile isTypeChar
  if types = [] then none
  else
    let lead := cs.length - rest.length
    some ((width (cs.take lead), types), lead + types.length)

/-- The lists of types that annotations of the text write, each with its byte offset. -/
def typeLists (text : List Char) : List (Nat × List Char) :=
  (scan typeList? [] 0 text).map fun (start, (lead, types)) => (start + lead, types)

end PhpRename.Doc
