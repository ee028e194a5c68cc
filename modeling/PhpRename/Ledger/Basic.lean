import PhpRename.Edit.Choice
import PhpRename.Failure
import PhpRename.Setting

/-!
# The ledger

The ledger of a run holds what is proposed until it is applied: the edits of every file, ordered
by path, and the moves of files. It also holds the settings of the run, which cannot change while
it is frozen.

* `Ledger.put`, `Ledger.mode`: settings.
* `Ledger.addEdit`, `Ledger.addMove`: proposals.
-/

namespace PhpRename

/-- A move of a file or a directory. -/
structure Move where
  source : Path
  target : Path
deriving Repr, BEq, Inhabited

/-- What a run has gathered. -/
structure Ledger where
  settings : List (String × Setting)
  /-- The edits of each file, ordered by path. -/
  changes : List FileEdits
  moves : List Move
  /-- The lines of each file where an edit was reported and not made. -/
  notices : List (Path × List Nat)
  /-- The number of edits that were reported and not made. -/
  suppressed : Nat
  frozen : Bool
deriving Repr, Inhabited

namespace Ledger

/-- Nothing is gathered, and the mode is conservative. -/
def new : Ledger :=
  ⟨[(Setting.modeKey, Setting.ofMode .conservative)], [], [], [], 0, false⟩

/-- The value of a setting. -/
def setting? (l : Ledger) (key : String) : Option Setting :=
  l.settings.lookup key

/-- Changes a setting. -/
def put (l : Ledger) (key : String) (value : Setting) : Except Failure Ledger :=
  if l.frozen then .error (.frozen key)
  else if key = Setting.modeKey ∧ value.mode?.isNone then .error .invalidMode
  else .ok { l with settings := (key, value) :: l.settings.filter fun s => s.1 ≠ key }

/-- Changes the mode. -/
def setMode (l : Ledger) (m : Mode) : Except Failure Ledger :=
  l.put Setting.modeKey (Setting.ofMode m)

/-- The mode. -/
def mode (l : Ledger) : Mode :=
  ((l.setting? Setting.modeKey).bind Setting.mode?).getD .conservative

/-- Adds an edit to those of its file. -/
def insertEdit (e : Edit) : List FileEdits → List FileEdits
  | [] => [(FileEdits.new e.file).push e]
  | s :: rest =>
    match compare e.file s.path with
    | .lt => (FileEdits.new e.file).push e :: s :: rest
    | .eq => s.push e :: rest
    | .gt => s :: insertEdit e rest

/-- Adds an edit. -/
def addEdit (l : Ledger) (e : Edit) : Ledger :=
  { l with changes := insertEdit e l.changes }

/-- Queues a move, unless it is queued. -/
def addMove (l : Ledger) (m : Move) : Ledger :=
  if l.moves.contains m then l else { l with moves := l.moves ++ [m] }

/-- The number of edits. -/
def editCount (l : Ledger) : Nat :=
  l.changes.foldl (fun n s => n + s.edits.length) 0

/-- Forgets the edits, but neither the moves nor the settings. -/
def clearEdits (l : Ledger) : Ledger :=
  { l with changes := [], notices := [], suppressed := 0 }

/-- The settings cannot change. -/
def freeze (l : Ledger) : Ledger :=
  { l with frozen := true }

/-- The settings can change. -/
def thaw (l : Ledger) : Ledger :=
  { l with frozen := false }

end Ledger

end PhpRename
