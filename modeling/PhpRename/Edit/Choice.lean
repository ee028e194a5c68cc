import PhpRename.Edit.Basic

/-!
# Choosing edits

A mode splits the edits of a file into those that are applied and those that are only
reported. Whatever the mode, an ambiguous edit that competes with another one is reported,
so of two guesses neither reaches the file.
-/

namespace PhpRename

/-- The edit at position `i` of the list is a guess that competes with another edit. -/
def Edit.contestedAt (edits : List Edit) (i : Nat) (e : Edit) : Bool :=
  e.confidence = .ambiguous && edits.zipIdx.any fun (other, j) => i ≠ j && e.overlaps other

/-- What became of the edits of one file. -/
structure Choice where
  apply : List Edit
  suppress : List Edit
deriving Repr, Inhabited

/-- The mode's choice among the edits, both parts in the order given. -/
def Choice.of (mode : Mode) (edits : List Edit) : Choice :=
  let chosen := fun (e, i) => !Edit.contestedAt edits i e && mode.admits e.confidence
  let (apply, suppress) := edits.zipIdx.partition chosen
  ⟨apply.map Prod.fst, suppress.map Prod.fst⟩

/-- The mode's choice among the edits of a file. -/
def FileEdits.choice (s : FileEdits) (mode : Mode) : Choice :=
  Choice.of mode s.edits

end PhpRename
