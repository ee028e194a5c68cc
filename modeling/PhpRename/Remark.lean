import PhpRename.Failure

/-!
# Remarks

What a user is told.

* `Remark.text`: a remark in words.
-/

namespace PhpRename

/-- Something that a user is told. -/
inductive Remark where
  /-- The edits of a file were not made because it could not be read. -/
  | unreadable (file : Path) (fault : Disk.Fault)
  /-- The edits of a file were not made because they do not fit it. -/
  | unfit (file : Path) (fault : Edit.Fault)
  /-- The edits of a file were not made because it could not be written. -/
  | unwritable (file : Path) (fault : Disk.Fault)
  /-- A move that is not made, only named. -/
  | wouldMove (source target : Path)
  /-- A move that is not made because there is nothing to move. -/
  | missing (source : Path)
  /-- A move that is not made because something else is there. -/
  | occupied (source target : Path)
  /-- A move that is not made because a directory cannot be. -/
  | noDirectory (directory : Path) (fault : Disk.Fault)
  | unmovable (source : Path) (fault : Disk.Fault)
  /-- A move that is not even queued because the file may not be changed. -/
  | locked (source : Path)
  /-- The target of an inclusion in a file that moves may not be found from its new place. -/
  | checkInclusion (source included target : Path)
  | changed (files : Nat)
  /-- So many possible changes were not made. -/
  | possible (edits files : Nat)
  /-- A line where a possible change was not made. -/
  | line (file : Path) (number : Nat)
  /-- Anything else that is to be said. -/
  | words (text : String)
deriving Repr

namespace Remark

/-- A path in quotes. -/
def quoted (p : Path) : String :=
  "\"" ++ p.spelling ++ "\""

/-- The remark in words. -/
def text : Remark → String
  | unreadable file fault =>
    "File " ++ quoted file ++ " could not be read, skipping: " ++ fault.message
  | unfit file fault => (Failure.edits file fault).message
  | unwritable file fault =>
    "File " ++ quoted file ++ " could not be written, skipping: " ++ fault.message
  | wouldMove source target => "Would move " ++ quoted source ++ " to " ++ quoted target
  | missing source => "File " ++ quoted source ++ " does not exist, so will not be moved."
  | occupied source target =>
    "File " ++ quoted target ++ " already exists, so " ++ quoted source ++
      " will not be moved."
  | noDirectory directory fault =>
    "Could not create " ++ quoted directory ++ ": " ++ fault.message
  | unmovable source fault =>
    "File " ++ quoted source ++ " could not be moved: " ++ fault.message
  | locked source => "File " ++ quoted source ++ " could not be moved."
  | checkInclusion source included target =>
    "File " ++ quoted source ++ " includes " ++ quoted included ++
      ", check that include after the move to " ++ quoted target ++ "."
  | changed files => "Changed " ++ toString files ++ " files"
  | possible edits files =>
    "Found " ++ toString edits ++ " possible changes in " ++ toString files ++
      " files that were not applied:"
  | line file number => file.spelling ++ ":" ++ toString number
  | words text => text

end Remark

end PhpRename
