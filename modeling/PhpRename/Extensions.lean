import PhpRename.Ordered

/-!
# File extensions

Which file extensions are enabled. An extension that is not mentioned is not enabled.
-/

namespace PhpRename

/-- File extensions, each enabled or disabled, in order and each only once. -/
abbrev Extensions := List (String × Bool)

namespace Extensions

/-- The extensions of PHP files and of files that they include. -/
def default : Extensions :=
  [("inc", true), ("php", true)]

/-- Enables or disables an extension. -/
def set (ext : String) (enabled : Bool) : Extensions → Extensions
  | [] => [(ext, enabled)]
  | (e, b) :: rest =>
    match compare ext e with
    | .lt => (ext, enabled) :: (e, b) :: rest
    | .eq => (e, enabled) :: rest
    | .gt => (e, b) :: set ext enabled rest

/-- The extensions of a list, of which later entries count. -/
def ofList (entries : List (String × Bool)) : Extensions :=
  entries.foldl (fun m (ext, enabled) => set ext enabled m) []

/-- The extension is enabled. -/
def allows (m : Extensions) (ext : String) : Bool :=
  (m.lookup ext).getD false

/-- The enabled extensions, in order. -/
def enabled (m : Extensions) : List String :=
  (m.filter (·.2)).map Prod.fst

end Extensions

end PhpRename
