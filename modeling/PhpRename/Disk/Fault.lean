import PhpRename.Path.Basic

/-!
# Faults of a disk

Why a file cannot be read, written or moved.
-/

namespace PhpRename

/-- Why something cannot be done on a disk. -/
inductive Disk.Fault where
  | notFound
  | alreadyExists
  | notDirectory
  | isDirectory
  | notEmpty
  /-- A directory that is not named, such as `.` or the root, cannot be moved. -/
  | busy
  /-- A directory cannot be moved into itself. -/
  | invalid
  | nameTooLong
  /-- A name has a character in it that no name can have. -/
  | nulInName
  /-- Symbolic links lead on and on. -/
  | tooManyLinks
  /-- The content of a file is not text. -/
  | notText
  /-- The file may not be changed. -/
  | readOnly (path : Path)
deriving Repr

namespace Disk.Fault

/-- The fault in words. -/
def message : Disk.Fault → String
  | notFound => "No such file or directory (os error 2)"
  | busy => "Device or resource busy (os error 16)"
  | alreadyExists => "File exists (os error 17)"
  | notDirectory => "Not a directory (os error 20)"
  | isDirectory => "Is a directory (os error 21)"
  | invalid => "Invalid argument (os error 22)"
  | nameTooLong => "File name too long (os error 36)"
  | notEmpty => "Directory not empty (os error 39)"
  | tooManyLinks => "Too many levels of symbolic links (os error 40)"
  | nulInName => "file name contained an unexpected NUL byte"
  | notText => "stream did not contain valid UTF-8"
  | readOnly path => path.spelling ++ " is read-only"

end Disk.Fault

end PhpRename
