/-!
# What is known of the class of a variable

Evidence for the class that a variable holds comes from declarations and from assignments.
A *declaration* (a type hint or a doc comment) holds in its whole scope and outweighs every
assignment. Evidence of one kind that disagrees leaves the variable in *conflict*.

* `Binding.add`: what is known after one more piece of evidence.
-/

namespace PhpRename

/-- Where evidence for the class of a variable comes from. -/
inductive Evidence where
  /-- The type of a parameter or of a caught exception. -/
  | typeHint
  /-- An annotation in a doc comment. -/
  | docComment
  /-- The assignment of a new object. -/
  | assignment
deriving DecidableEq, Repr

namespace Evidence

/-- The evidence holds for the whole scope. -/
def isDeclared : Evidence → Bool
  | assignment => false
  | _ => true

/-- The word for a kind of evidence. -/
def word : Evidence → String
  | typeHint => "type_hint"
  | docComment => "doc_comment"
  | assignment => "assignment"

end Evidence

/-- What is known of a variable. -/
inductive Binding where
  | resolved (cls : String) (source : Evidence)
  /-- The evidence disagrees. -/
  | conflicted
deriving DecidableEq, Repr

namespace Binding

/-- What is known once `source` says that the variable holds `cls`. -/
def add (known : Option Binding) (cls : String) (source : Evidence) : Binding :=
  match known with
  | none => resolved cls source
  | some conflicted => if source.isDeclared then resolved cls source else conflicted
  | some (resolved cls' source') =>
    if source'.isDeclared && !source.isDeclared then resolved cls' source'
    else if !source'.isDeclared && source.isDeclared then resolved cls source
    else if cls' = cls then resolved cls' source'
    else conflicted

/-- What is known once something other than a new object has been assigned. -/
def blur (known : Option Binding) : Binding :=
  match known with
  | none => conflicted
  | some (resolved cls source) => if source.isDeclared then resolved cls source else conflicted
  | some conflicted => conflicted

/-- The class that the evidence agrees on. -/
def cls? : Binding → Option String
  | resolved cls _ => some cls
  | conflicted => none

end Binding

end PhpRename
