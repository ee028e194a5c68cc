import PhpRename.Path.Normal

/-!
# How two paths lie to each other

* `Path.baseOfTail?`: the directory from which a relative path names a given file.
* `Path.leadingTo`: the relative path from a directory to a file.
-/

namespace PhpRename.Path

/-- A part is a name. -/
def Part.isName : Part → Bool
  | .name _ => true
  | _ => false

/-- If the names of `tail` are the last parts of `p`, the path that the parts before them spell.
`Foo/Bar.php` is a tail of `/p/src/Foo/Bar.php` with the base `/p/src`. -/
def baseOfTail? (p tail : Path) : Option Path :=
  let names := (normalParts tail.parts).filter Part.isName
  let whole := p.parts
  if names = [] ∨ whole.length < names.length then none
  else
    let split := whole.length - names.length
    if whole.drop split = names then some (ofParts (whole.take split)) else none

/-- The number of leading parts that two lists share. -/
def commonLength : List Part → List Part → Nat
  | a :: as, b :: bs => if a = b then commonLength as bs + 1 else 0
  | _, _ => 0

/-- The relative path that leads from the directory `base` to `target`. -/
def leadingTo (base target : Path) : Path :=
  let common := commonLength base.parts target.parts
  ofParts (List.replicate (base.parts.length - common) .up ++ target.parts.drop common)

end PhpRename.Path
