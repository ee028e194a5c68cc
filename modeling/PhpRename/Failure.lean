import PhpRename.Disk.Fault
import PhpRename.Edit.Splice
import PhpRename.Glob.Fault

/-!
# Failures

Why something that was asked for cannot be done.

* `Failure.message`: a failure in words.
-/

namespace PhpRename

/-- Why something cannot be done. -/
inductive Failure where
  | disk (fault : Disk.Fault)
  /-- The text does not write a pattern. -/
  | pattern (text : String)
  /-- The text is not a glob. -/
  | glob (text : String) (fault : Glob.Fault)
  /-- The edits of a file cannot be made. -/
  | edits (file : Path) (fault : Edit.Fault)
  /-- A setting cannot change during a run. -/
  | frozen (key : String)
  /-- The word is not that of a mode. -/
  | unknownMode (word : String)
  /-- The value of the setting for the mode is not a mode. -/
  | invalidMode
  /-- The content of a settings file has not the right form. -/
  | badSettings
deriving Repr

namespace Failure

/-- A range of bytes in words. -/
def rangeText (r : Nat × Nat) : String :=
  "[" ++ toString r.1 ++ ", " ++ toString r.2 ++ ")"

/-- Why the edits of a file cannot be made, in words. -/
def editsMessage (file : Path) : Edit.Fault → String
  | .clash first second =>
    "Overlapping edits in " ++ file.spelling ++ ": " ++ rangeText first ++ " and " ++
      rangeText second
  | .outside offset length =>
    "Edit at offset " ++ toString offset ++ " (length " ++ toString length ++ ") is outside " ++
      file.spelling

/-- The failure in words. -/
def message : Failure → String
  | disk fault => "IO error: " ++ fault.message
  | pattern text => "Invalid pattern '" ++ text ++ "'"
  | glob text fault =>
    "Invalid ignore pattern: error parsing glob '" ++ text ++ "': " ++ fault.message
  | edits file fault => editsMessage file fault
  | frozen key =>
    "Run configuration is frozen while a run is in progress (key '" ++ key ++ "')"
  | unknownMode word =>
    "Configuration error: Unknown edit mode '" ++ word ++
      "'. Must be 'timid', 'conservative' or 'aggressive'"
  | invalidMode => "Configuration error: Invalid edit mode"
  | badSettings => "Configuration error: Failed to parse"

end Failure

end PhpRename
