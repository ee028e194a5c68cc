import PhpRename.Symbols.Basic

/-!
# The class hierarchy

A class has a *link* to its recorded parent and to each of its interfaces. Links may lead to
names that are not recorded, and may form cycles.

* `Symbols.descendants`: the classes from which links lead to a name.
* `Symbols.isAncestor`: links lead from one name to another.
-/

namespace PhpRename.Symbols

/-- Everything that `next` leads to from `frontier`, added to what has been found before, in at
most so many rounds. -/
def closure (next : String → List String) :
    Nat → (frontier found : List String) → List String
  | 0, _, found => found
  | rounds + 1, frontier, found =>
    match ((frontier.flatMap next).filter (!found.contains ·)).eraseDups with
    | [] => found
    | new => closure next rounds new (found ++ new)

/-- The names that a class has a link to. -/
def supers (db : Symbols) (name : String) : List String :=
  match db.class? name with
  | some c => c.parent.toList ++ c.interfaces
  | none => []

/-- The recorded classes that have a link to a name, in order. -/
def children (db : Symbols) (name : String) : List String :=
  Ordered.ofList <|
    (db.classes.filter fun c => c.parent = some name || c.interfaces.contains name).map (·.name)

/-- Each round but the last finds a recorded class, so this many rounds are enough. -/
def rounds (db : Symbols) : Nat :=
  db.classes.length + 1

/-- The recorded classes from which links lead to a name, in order; never the name itself. -/
def descendants (db : Symbols) (name : String) : List String :=
  Ordered.ofList <|
    (closure db.children db.rounds [name] []).filter (· ≠ name)

/-- One link or more lead from the class `name` to `ancestor`. -/
def isAncestor (db : Symbols) (name ancestor : String) : Bool :=
  (closure db.supers db.rounds [name] []).contains ancestor

end PhpRename.Symbols
