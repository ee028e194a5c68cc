import PhpRename.Path.Relation

/-!
# The file of a class

A file follows a convention when it is named after the class it declares: `Widget.php` for
`Widget`, or `Foo/Bar.php` for `Foo_Bar`. Such a file moves along when the class is renamed.
-/

namespace PhpRename.Rename

/-- The name of a class as a relative path. -/
def classPath (cls : String) : String :=
  cls.map fun c => if c = '_' then '/' else c

/-- Where the file moves when the class `old` is renamed to `new`, if it follows the convention
with this extension. -/
def classFileWith? (file : Path) (name old new ext : String) : Option (Option Path) :=
  if name = old ++ "." ++ ext then some (file.parent?.map (·.join ⟨new ++ "." ++ ext⟩))
  else
    (Path.baseOfTail? file ⟨classPath old ++ "." ++ ext⟩).map fun base =>
      some (base.join ⟨classPath new ++ "." ++ ext⟩)

/-- Where the file that declares the class `old` moves when that is renamed to `new`; `none` when
it follows no convention. The first extension that fits counts. -/
def classFileTarget? (file : Path) (old new : String) (extensions : List String) : Option Path :=
  match file.fileName? with
  | none => none
  | some name => (extensions.findSome? (classFileWith? file name old new)).join

end PhpRename.Rename
