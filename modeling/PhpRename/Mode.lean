/-!
# Edit modes

How much of what is found a run may change.
-/

namespace PhpRename

/-- How sure a proposal is. -/
inductive Confidence where
  /-- What the text refers to could not be confirmed. -/
  | ambiguous
  | certain
deriving DecidableEq, Repr, Inhabited

namespace Confidence

/-- The stronger of two confidences. -/
def max : Confidence → Confidence → Confidence
  | ambiguous, c => c
  | certain, _ => certain

/-- The word for a confidence. -/
def word : Confidence → String
  | ambiguous => "ambiguous"
  | certain => "certain"

end Confidence

/-- What a run is allowed to change. -/
inductive Mode where
  /-- Nothing; only report. -/
  | timid
  /-- What is certain; report the rest. -/
  | conservative
  /-- Everything that was found. -/
  | aggressive
deriving DecidableEq, Repr, Inhabited

namespace Mode

/-- The word for a mode. -/
def word : Mode → String
  | timid => "timid"
  | conservative => "conservative"
  | aggressive => "aggressive"

/-- The mode that exactly this word stands for. -/
def ofWord? (s : String) : Option Mode :=
  if s = "timid" then some timid
  else if s = "conservative" then some conservative
  else if s = "aggressive" then some aggressive
  else none

/-- The mode lets edits of this confidence through. -/
def admits : Mode → Confidence → Bool
  | timid, _ => false
  | conservative, c => c = .certain
  | aggressive, _ => true

end Mode

end PhpRename
