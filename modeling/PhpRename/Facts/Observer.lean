import PhpRename.Facts.Declarations
import PhpRename.Facts.Variables

/-!
# Observers

An observer looks at every site of a file and learns what the site says about one kind of thing.
-/

namespace PhpRename

/-- What a reading pass looks for. -/
inductive Observer where
  | globals
  | assignments
  | typeHints
  | annotations
  | inclusions
  | classes
deriving DecidableEq, Repr

namespace Observer

/-- All observers, in the order in which they look at a site. -/
def all : List Observer :=
  [globals, assignments, typeHints, annotations, inclusions, classes]

/-- What the observer learns at a site. -/
def facts (o : Observer) (s : Php.Site) (db : Symbols) : List Fact :=
  match o with
  | globals => Facts.globals s
  | assignments => Facts.assigned s db
  | typeHints => Facts.hinted s db
  | annotations => Facts.annotated s db
  | inclusions => Facts.included s
  | classes => Facts.declared s

/-- The symbols after the observer has looked at a site. -/
def observe (o : Observer) (s : Php.Site) (db : Symbols) : Symbols :=
  db.learnAll (o.facts s db)

end Observer

end PhpRename
