import PhpRename.Facts.Basic
import PhpRename.Php.ClassName
import PhpRename.Php.Include

/-!
# Facts about classes and files

* `declared`: the class, interface or enumeration that is declared at a site.
* `included`: the file that an include statement names.
-/

namespace PhpRename.Facts

open Php

/-- The class names between commas that begin at the site, `n` of them at most, and the site of
the code after them. -/
def namesFrom : Nat → Option Site → List String × Option Site
  | 0, at_ => ([], at_)
  | _, none => ([], none)
  | n + 1, some start =>
    match start.className? with
    | none => ([], some start)
    | some (name, last) =>
      match last.nextCode? with
      | none => ([name], none)
      | some next =>
        if next.token.isPunct "," then
          let (names, after) := namesFrom n next.nextCode?
          (name :: names, after)
        else ([name], some next)

/-- The class names in the list after the keyword at the site, and the site of the code after
them. -/
def namesAfter (keyword : Site) : List String × Option Site :=
  namesFrom (keyword.after.length + 1) keyword.nextCode?

/-- The names after the keyword `w`, if it stands at the site, and the site of the code after
them. -/
def clause (w : String) (at_ : Option Site) : List String × Option Site :=
  match at_ with
  | some s => if s.token.isKeyword w then namesAfter s else ([], at_)
  | none => ([], none)

/-- The class, interface or enumeration whose declaration begins at the site. -/
def declared (s : Site) : List Fact :=
  let isInterface := s.token.isKeyword "interface"
  if !(isInterface || s.token.isKeyword "class" || s.token.isKeyword "enum") then []
  else if s.prev?.any fun t => t.isPunct "::" || t.isKeyword "new" then []
  else
    match s.nextCode? with
    | none => []
    | some name =>
      if name.token.kind ≠ .name then []
      else
        let (extended, after) := clause "extends" name.nextCode?
        let (implemented, _) := clause "implements" after
        if isInterface then
          [.declares name.token.text none (extended ++ implemented) s.path]
        else [.declares name.token.text extended.head? implemented s.path]

/-- The file that the include statement with its literal at the site names. -/
def included (s : Site) : List Fact :=
  match s.target? with
  | some target => [.includes s.path (target.resolve s.path)]
  | none => []

end PhpRename.Facts
