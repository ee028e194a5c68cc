import PhpRename.Disk.Access
import PhpRename.Extensions
import PhpRename.Failure
import PhpRename.Toml.Reader

/-!
# Settings files

A settings file gives the mode, the extensions and the globs for what is left out. What it does
not give is as if there were no file; what else it holds does not matter.

* `Settings.ofText`: the settings that a document gives.
* `Settings.load`, `Settings.discover`: the settings of a file, and those of a directory.
-/

namespace PhpRename

open Toml (Item Fields)

/-- How runs are to be. -/
structure Settings where
  mode : Mode
  extensions : Extensions
  ignored : List String
deriving Repr, Inhabited

namespace Settings

/-- The settings where there is no file. -/
def default : Settings :=
  ⟨.conservative, Extensions.default, []⟩

/-- The name of a settings file. -/
def fileName : String := "recast.toml"

/-- Something with nothing in it. -/
def isNothing : Item → Bool
  | .array [] | .table _ [] => true
  | _ => false

/-- The mode that an item stands for: its word, or a table with nothing in it under that word. -/
def mode? : Item → Option Mode
  | .text s => Mode.ofWord? s
  | .table _ [(key, item)] => if isNothing item then Mode.ofWord? key else none
  | _ => none

/-- The extensions that an item gives. -/
def extensions? : Item → Option Extensions
  | .table _ fields => do
    let entries ← fields.mapM fun
      | (ext, .flag b) => some (ext, b)
      | _ => none
    return Extensions.ofList entries
  | _ => none

/-- The texts that an item lists. -/
def texts? : Item → Option (List String)
  | .array items => items.mapM fun
    | .text s => some s
    | _ => none
  | _ => none

/-- What stands under a key, read, or the default if nothing does. -/
def field? (fields : Fields) (key : String) (default : α) (read : Item → Option α) : Option α :=
  match fields.lookup key with
  | none => some default
  | some item => read item

/-- The settings that a document gives. -/
def ofText (text : String) : Except Failure Settings :=
  let settings? := do
    let fields ← Toml.read? text
    let mode ← field? fields "edit_mode" default.mode mode?
    let extensions ← field? fields "allowed_extensions" default.extensions extensions?
    let ignored ← field? fields "ignore_patterns" default.ignored texts?
    return ⟨mode, extensions, ignored⟩
  match settings? with
  | some settings => .ok settings
  | none => .error .badSettings

/-- The settings of a file. -/
def load (d : Disk) (p : Path) : Except Failure Settings :=
  match d.read p with
  | .error fault => .error (.disk fault)
  | .ok text => ofText text

/-- The settings of the settings file in a directory, if there is one. -/
def discover (d : Disk) (dir : Path) : Except Failure Settings :=
  let p := dir.join ⟨fileName⟩
  if d.hasFile p then load d p else .ok default

end Settings

end PhpRename
