import PhpRename.Path.Normal
import PhpRename.Php.Site

/-!
# Include statements

An include statement has a *target* when its whole argument is one string literal, maybe after
a prefix that stands for the directory of the file itself.

* `Site.target?`: the target, when the site is the literal of an include statement.
* `Target.resolve`: the file that a target names.
-/

namespace PhpRename.Php

/-- The literal of an include statement. -/
structure Target where
  /-- The text between the quotes. -/
  literal : String
  /-- Byte offset of that text. -/
  offset : Nat
  /-- The directory of the file is written in front of the literal. -/
  fromDir : Bool
deriving Repr, Inhabited

/-- Keywords that include a file. -/
def includeWords : List String :=
  ["include", "include_once", "require", "require_once"]

namespace Target

/-- The file that the target names, for a target written in the file `p`. -/
def resolve (t : Target) (p : Path) : Path :=
  if t.fromDir then
    let below := String.ofList (t.literal.toList.dropWhile (· = '/'))
    (p.directory.join ⟨below⟩).normalize
  else p.resolve t.literal

end Target

namespace Site

/-- Where a prefix for the directory of the file begins, given the site of the dot after it. The
prefix is `__DIR__` or `dirname(__FILE__)`. -/
def dirStart? (dot : Site) : Option Site := do
  let last ← dot.prevCode?
  if last.token.text = "__DIR__" then some last
  else if last.token.isPunct ")" then
    let file ← last.prevCode?
    let paren ← file.prevCode?
    let function ← paren.prevCode?
    if file.token.text = "__FILE__" && paren.token.isPunct "(" &&
        lowercase function.token.text = "dirname" then
      some function
    else none
  else none

/-- Where the operand that ends with the literal at the site begins, and whether it has a prefix
for the directory of the file. `none` when anything else is put in front of the literal. -/
def operandStart? (s : Site) : Option (Site × Bool) :=
  match s.prevCode? with
  | some dot => if dot.token.isPunct "." then dot.dirStart?.map (·, true) else some (s, false)
  | none => some (s, false)

/-- What follows the site ends the argument of an include. -/
def endsArgument (s : Site) (inParens : Bool) : Bool :=
  match s.next? with
  | none => !inParens
  | some next =>
    if inParens then next.isPunct ")"
    else next.isPunct ";" || "?>".toList.isPrefixOf next.text.toList

/-- The include target, when the token at the site is the literal of one. -/
def target? (s : Site) : Option Target := do
  let literal ← s.token.literal?
  let (start, fromDir) ← s.operandStart?
  let front ← start.prevCode?
  let inParens := front.token.isPunct "("
  let keyword ← if inParens then front.prevCode? else some front
  if includeWords.any keyword.token.isKeyword && s.endsArgument inParens then
    some ⟨literal, s.token.offset + 1, fromDir⟩
  else none

end Site

end PhpRename.Php
