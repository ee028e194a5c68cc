import PhpRename.Symbols.Basic

/-!
# Facts

A reading pass learns one fact after the other.

* `Symbols.learn`: the symbols once a fact is known.
-/

namespace PhpRename

/-- Something a source file says about the project. -/
inductive Fact where
  /-- A class is declared. -/
  | declares (name : String) (parent : Option String) (interfaces : List String) (file : Path)
  /-- A variable is global within a function. -/
  | isGlobal (scope : VarScope) (name : String)
  /-- A variable holds a class. -/
  | holds (scope : VarScope) (name cls : String) (source : Evidence)
  /-- A variable is assigned something other than a new object. -/
  | isAssigned (scope : VarScope) (name : String)
  /-- A file includes another one. -/
  | includes (source target : Path)

namespace Symbols

/-- The symbols once the fact is known. -/
def learn (db : Symbols) : Fact → Symbols
  | .declares name parent interfaces file =>
    let db := db.addClass name parent file
    if interfaces = [] then db else db.addInterfaces name interfaces
  | .isGlobal scope name => db.addGlobal scope name
  | .holds scope name cls source => db.addType scope name cls source
  | .isAssigned scope name => db.addUntyped scope name
  | .includes source target => db.addInclusion source target

/-- The symbols once all the facts are known. -/
def learnAll (db : Symbols) (facts : List Fact) : Symbols :=
  facts.foldl learn db

end Symbols

end PhpRename
