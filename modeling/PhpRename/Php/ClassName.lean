import PhpRename.Php.Site
import PhpRename.Symbols.Basic

/-!
# Names of classes

A class is known by the last segment of its name. Some names are not names of classes: built-in
types, and the words that stand for the class around them.

* `Site.className?`: the class name that is written at a site.
* `Site.resolve?`: the class that a name means at a site.
-/

namespace PhpRename.Php

/-- Names of types that are not classes. -/
def primitiveTypes : List String :=
  ["array", "bool", "boolean", "callable", "double", "false", "float", "int", "integer",
   "iterable", "mixed", "never", "null", "number", "object", "resource", "scalar", "string",
   "true", "void"]

/-- The name is that of a built-in type, in any case. -/
def isPrimitive (name : String) : Bool :=
  primitiveTypes.contains (lowercase name)

/-- The name stands for the class around it, for a class below it, or for its parent. -/
def isRelative (name : String) : Bool :=
  ["self", "static", "parent"].contains (lowercase name)

/-- The text after the last backslash. -/
def lastSegment (name : String) : String :=
  String.ofList (name.toList.reverse.takeWhile (· ≠ '\\')).reverse

/-- The token is a word that may stand for a class. -/
def Token.isRelativeClass (t : Token) : Bool :=
  (t.kind = .keyword || t.kind = .other) && isRelative t.text

/-- The last segment of the name at the front of the tokens, and the number of tokens that the
name takes. `name` is the segment read before them. -/
def nameRun (name : Option String) : List Token → Option String × Nat
  | [] => (name, 0)
  | t :: rest =>
    if t.kind = .name then
      let (last, n) := nameRun (some t.text) rest
      (last, n + 1)
    else if t.isRelativeClass && name.isNone then (some t.text, 1)
    else if t.isPunct "\\" then
      let (last, n) := nameRun name rest
      (last, n + 1)
    else (name, 0)

namespace Site

/-- The last segment of the class name written at the site, with the site where the name ends. -/
def className? (s : Site) : Option (String × Site) :=
  match nameRun none (s.token :: s.after) with
  | (some name, n) => some (name, s.advance (n - 1))
  | (none, _) => none

/-- The class that `name` means at the site; `none` for built-in types, and where there is no
class to refer to. -/
def resolve? (s : Site) (db : Symbols) (name : String) : Option String :=
  let last := lastSegment name
  if last = "" || isPrimitive last then none
  else
    match lowercase last with
    | "self" | "static" => s.cls?
    | "parent" => s.cls?.bind db.parent?
    | _ => some last

end Site

end PhpRename.Php
