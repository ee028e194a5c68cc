import PhpRename.Disk.Access
import PhpRename.Ledger.Basic
import PhpRename.Ordered
import PhpRename.Remark

/-!
# Enacting a ledger

The mode chooses among the edits of each file. If edits of one file that are chosen compete,
nothing happens at all. Otherwise each file is rewritten, or a remark says why it is not, and then
the moves are made one after the other.

* `Ledger.choices`: what the mode chooses for each file.
* `Ledger.enact`: the ledger and the disk afterwards, with a report, and why nothing happened if that is so.
-/

namespace PhpRename

/-- What has come of a ledger. -/
structure Report where
  /-- Files with new content. -/
  filesChanged : Nat
  editsApplied : Nat
  /-- Edits that were reported and not made. -/
  suppressed : Nat
  movesMade : Nat
  remarks : List Remark
deriving Repr, Inhabited

/-- A disk that is being changed, with the report so far. -/
structure Progress where
  disk : Disk
  report : Report
deriving Inhabited

namespace Progress

/-- Nothing has been done. -/
def start (d : Disk) : Progress :=
  ⟨d, ⟨0, 0, 0, 0, []⟩⟩

/-- Something could not be done. -/
def remark (p : Progress) (r : Remark) : Progress :=
  { p with report := { p.report with remarks := p.report.remarks ++ [r] } }

end Progress

/-- Makes edits of a file, or says why that cannot be. -/
def Disk.edit (d : Disk) (file : Path) (edits : List Edit) : Except Remark Disk :=
  match d.read file with
  | .error fault => .error (.unreadable file fault)
  | .ok content =>
    match Edit.splice content.toList edits with
    | .error fault => .error (.unfit file fault)
    | .ok new =>
      match d.rewrite file (String.ofList new) with
      | .error fault => .error (.unwritable file fault)
      | .ok d => .ok d

/-- Makes a move to a free place. The directories for it are made first, and stay if the move
itself cannot be made. -/
def Disk.carryOut (d : Disk) (m : Move) : Disk × Option Remark :=
  if !d.hasEntry m.source then (d, some (.missing m.source))
  else if d.hasEntry m.target then (d, some (.occupied m.source m.target))
  else
    let (d, remark?) :=
      match m.target.parent? with
      | none => (d, none)
      | some dir => (d.makeDirectories dir).map id (Option.map (Remark.noDirectory dir))
    match remark? with
    | some r => (d, some r)
    | none =>
      match d.move m.source m.target with
      | .error fault => (d, some (.unmovable m.source fault))
      | .ok d => (d, none)

namespace Ledger

/-- What the mode chooses for each file. -/
def choices (l : Ledger) : List (Path × Choice) :=
  l.changes.map fun s => (s.path, s.choice l.mode)

/-- The first file of which the chosen edits compete. -/
def firstClash? : List (Path × Choice) → Option Failure
  | [] => none
  | (file, choice) :: rest =>
    match Edit.checkClashes choice.apply with
    | .error fault => some (.edits file fault)
    | .ok () => firstClash? rest

/-- Makes what is chosen for a file, and counts what is not. -/
def applyChoice (p : Progress) (c : Path × Choice) : Progress :=
  let (file, choice) := c
  let p := { p with report :=
    { p.report with suppressed := p.report.suppressed + choice.suppress.length } }
  if choice.apply.isEmpty then p
  else
    match p.disk.edit file choice.apply with
    | .error r => p.remark r
    | .ok disk =>
      ⟨disk, { p.report with
        filesChanged := p.report.filesChanged + 1
        editsApplied := p.report.editsApplied + choice.apply.length }⟩

/-- Makes a move, or in timid mode only names it. -/
def applyMove (mode : Mode) (p : Progress) (m : Move) : Progress :=
  if mode = .timid then p.remark (.wouldMove m.source m.target)
  else
    match p.disk.carryOut m with
    | (disk, some r) => { p with disk }.remark r
    | (disk, none) => ⟨disk, { p.report with movesMade := p.report.movesMade + 1 }⟩

/-- The lines of each file where an edit is reported and not made. -/
def noticesOf (choices : List (Path × Choice)) : List (Path × List Nat) :=
  choices.filterMap fun (file, choice) =>
    if choice.suppress.isEmpty then none
    else some (file, Ordered.ofList (choice.suppress.map Edit.line))

/-- Enacts the ledger. The moves are then no longer queued. If the ledger is refused, it stays as it is,
nothing has been done and nothing is said. -/
def enact (l : Ledger) (d : Disk) : Ledger × Progress × Option Failure :=
  match firstClash? l.choices with
  | some failure => (l, Progress.start d, some failure)
  | none =>
    let edited := l.choices.foldl applyChoice (Progress.start d)
    let moved := l.moves.foldl (applyMove l.mode) edited
    ({ l with moves := [], notices := noticesOf l.choices,
              suppressed := moved.report.suppressed }, moved, none)

end Ledger

end PhpRename
