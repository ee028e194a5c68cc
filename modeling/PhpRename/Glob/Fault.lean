/-!
# Faults of globs

Why a text is not a glob.
-/

namespace PhpRename

/-- What is wrong with a text that should be a glob. -/
inductive Glob.Fault where
  | unclosedClass
  | invalidRange (first last : Char)
  | unopenedAlternates
  | unclosedAlternates
  | danglingEscape
deriving DecidableEq, Repr

namespace Glob.Fault

/-- The fault in words. -/
def message : Glob.Fault → String
  | unclosedClass => "unclosed character class; missing ']'"
  | invalidRange first last =>
    "invalid range; '" ++ first.toString ++ "' > '" ++ last.toString ++ "'"
  | unopenedAlternates =>
    "unopened alternate group; missing '\x7b' (maybe escape '\x7d' with '[\x7d]'?)"
  | unclosedAlternates =>
    "unclosed alternate group; missing '\x7d' (maybe escape '\x7b' with '[\x7b]'?)"
  | danglingEscape => "dangling '\\'"

end Glob.Fault

end PhpRename
