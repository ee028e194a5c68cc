import PhpRename.Ordered
import PhpRename.Symbols.Binding
import PhpRename.Symbols.Scope

/-!
# Symbols of a project

What a reading pass finds out about a project: the classes that are declared, what is known of
the variables, and which file includes which.

* `Symbols.addClass`, `addInterfaces`, `addGlobal`, `addType`, `addUntyped`, `addInclusion`:
  one more fact.
* `Symbols.class?`, `binding?`, `typeOf?`, `includedBy`, `includersOf`: what is known.
-/

namespace PhpRename

/-- The declaration of a class, an interface or an enumeration. -/
structure ClassDecl where
  name : String
  parent : Option String
  /-- The interfaces a class implements, or those an interface extends. -/
  interfaces : List String
  file : Path
deriving Repr, Inhabited

/-- The file `source` includes the file `target`. -/
structure Inclusion where
  source : Path
  target : Path
deriving Repr, Inhabited

namespace Inclusion

instance : Ord Inclusion := ⟨fun i j => (compare i.source j.source).then (compare i.target j.target)⟩

end Inclusion

/-- The facts known of a project. -/
structure Symbols where
  /-- One declaration for each class name. -/
  classes : List ClassDecl
  /-- At most one binding for each variable of each scope. -/
  bindings : List ((VarScope × String) × Binding)
  /-- Variables that are declared global within a function. -/
  globals : List (VarScope × String)
  /-- In order of source and target. -/
  inclusions : List Inclusion
deriving Repr, Inhabited

namespace Symbols

/-- Nothing is known. -/
def empty : Symbols :=
  ⟨[], [], [], []⟩

def isEmpty (db : Symbols) : Bool :=
  db.classes.isEmpty && db.bindings.isEmpty && db.globals.isEmpty && db.inclusions.isEmpty

/-! ## Classes -/

/-- The last declaration of a class name. -/
def class? (db : Symbols) (name : String) : Option ClassDecl :=
  db.classes.find? (·.name = name)

/-- The recorded parent of a class. -/
def parent? (db : Symbols) (name : String) : Option String :=
  (db.class? name).bind (·.parent)

/-- Puts a declaration in the place of an earlier one of that name. -/
def putClass (c : ClassDecl) : List ClassDecl → List ClassDecl
  | [] => [c]
  | d :: ds => if d.name = c.name then c :: ds else d :: putClass c ds

/-- A class is declared; a later declaration of a name takes the place of an earlier one. -/
def addClass (db : Symbols) (name : String) (parent : Option String) (file : Path) : Symbols :=
  { db with classes := putClass ⟨name, parent, [], file⟩ db.classes }

/-- A recorded class has these interfaces. -/
def addInterfaces (db : Symbols) (name : String) (interfaces : List String) : Symbols :=
  { db with
    classes := db.classes.map fun c => if c.name = name then { c with interfaces } else c }

/-- The classes declared in a file, by name. -/
def classesIn (db : Symbols) (file : Path) : List ClassDecl :=
  (db.classes.filter (·.file == file)).mergeSort fun c d => c.name ≤ d.name

/-- The files in which classes are declared, in order. -/
def classFiles (db : Symbols) : List Path :=
  Ordered.ofList (db.classes.map (·.file))

/-! ## Variables -/

/-- A variable of a scope. -/
abbrev VarKey := VarScope × String

/-- The variable is the global one of its name. -/
def isGlobal (db : Symbols) (scope : VarScope) (name : String) : Bool :=
  scope == .global || db.globals.contains (scope, name)

/-- A variable is declared global within a function. -/
def addGlobal (db : Symbols) (scope : VarScope) (name : String) : Symbols :=
  if db.isGlobal scope name then db else { db with globals := db.globals ++ [(scope, name)] }

/-- The scope a variable lives in. -/
def scopeOf (db : Symbols) (scope : VarScope) (name : String) : VarScope :=
  if db.isGlobal scope name then .global else scope

/-- What is known of a variable that lives in this scope. -/
def lookup (key : VarKey) : List (VarKey × Binding) → Option Binding
  | [] => none
  | (k, b) :: rest => if k == key then some b else lookup key rest

/-- Puts what is known of a variable in the place of what was known. -/
def put (key : VarKey) (b : Binding) : List (VarKey × Binding) → List (VarKey × Binding)
  | [] => [(key, b)]
  | (k, c) :: rest => if k == key then (k, b) :: rest else (k, c) :: put key b rest

/-- What is known of a variable. -/
def binding? (db : Symbols) (scope : VarScope) (name : String) : Option Binding :=
  lookup (db.scopeOf scope name, name) db.bindings

/-- The class that a variable is known to hold. -/
def typeOf? (db : Symbols) (scope : VarScope) (name : String) : Option String :=
  (db.binding? scope name).bind Binding.cls?

/-- Changes what is known of a variable. -/
def update (db : Symbols) (scope : VarScope) (name : String)
    (f : Option Binding → Binding) : Symbols :=
  let key := (db.scopeOf scope name, name)
  { db with bindings := put key (f (lookup key db.bindings)) db.bindings }

/-- There is evidence that a variable holds a class. -/
def addType (db : Symbols) (scope : VarScope) (name cls : String) (source : Evidence) : Symbols :=
  db.update scope name (Binding.add · cls source)

/-- A variable is assigned something other than a new object. -/
def addUntyped (db : Symbols) (scope : VarScope) (name : String) : Symbols :=
  db.update scope name Binding.blur

/-! ## Inclusions -/

/-- One file includes another. -/
def addInclusion (db : Symbols) (source target : Path) : Symbols :=
  { db with inclusions := Ordered.insert ⟨source, target⟩ db.inclusions }

/-- The files that a file includes, in order. -/
def includedBy (db : Symbols) (file : Path) : List Path :=
  (db.inclusions.filter (·.source == file)).map (·.target)

/-- The files that include a file, in order. -/
def includersOf (db : Symbols) (file : Path) : List Path :=
  (db.inclusions.filter (·.target == file)).map (·.source)

end Symbols

end PhpRename
