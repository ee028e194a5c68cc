import PhpRename.Ledger.Enact
import PhpRename.Rename.ClassFile
import PhpRename.Session.Basic
import PhpRename.Survey.Pass
import PhpRename.Symbols.Hierarchy

/-!
# Runs

A run carries out the requests of a session. If some request needs it, a first pass only gathers
facts, and what follows from them is asked for. The next pass proposes edits, and the ledger
is enacted. A run that fails leaves the disk as it is.

* `Session.settle`: takes care of the follow-ups.
* `Session.run`: a whole run.
-/

namespace PhpRename

namespace Session

/-- All that there is to know about files. -/
def observers : List Listener :=
  Observer.all.map Listener.observer

/-- One pass over the files of the session. -/
def pass (s : Session) (d : Disk) (listeners : List Listener) (keep : Bool) :
    Session × Option Failure :=
  let (survey, failure?) := Survey.pass listeners keep s.selection d s.paths s.db s.ledger
  ({ s with db := survey.db, ledger := survey.ledger }, failure?)

/-- Takes care of one follow-up. -/
def follow (d : Disk) (s : Session) : FollowUp → Session
  | .descendants cls old new =>
    (s.db.descendants cls).foldl (fun s child => s.renameMethod child old new false) s
  | .classFile old new =>
    match s.db.class? old with
    | none => s
    | some c =>
      match Rename.classFileTarget? c.file old new s.selection.extensions.enabled with
      | none => s
      | some target => s.renameFile d c.file target

/-- Takes care of all follow-ups in order. They ask for renames that leave no follow-ups. -/
def settle (s : Session) (d : Disk) : Session :=
  s.followUps.foldl (follow d) s

/-- Two files lie in one directory. -/
def stays (m : Move) : Bool :=
  match m.source.parent?, m.target.parent? with
  | some p, some q => p == q
  | none, none => true
  | _, _ => false

/-- The inclusions in files that move to another directory, unless what they include moves too. -/
def inclusionsToCheck (s : Session) : List Remark :=
  if s.db.isEmpty then []
  else
    let moving := s.ledger.moves.map Move.source
    (s.ledger.moves.filter fun m => !stays m).flatMap fun m =>
      ((s.db.includedBy m.source).filter fun p => !moving.contains p).map fun p =>
        .checkInclusion m.source p m.target

/-- What is said at the end of a run. -/
def summary (l : Ledger) (r : Report) : List Remark :=
  let lines := l.notices.flatMap fun (file, lines) => lines.map (Remark.line file)
  .changed r.filesChanged ::
    if l.notices.isEmpty then [] else .possible r.suppressed l.notices.length :: lines

/-- Enacts the ledger. -/
def finish (s : Session) (d : Disk) : Except Failure Report × Session × Disk :=
  let (ledger, done, failure?) := s.ledger.enact d
  let s := { s with ledger, remarks := s.remarks ++ s.inclusionsToCheck ++ done.report.remarks }
  match failure? with
  | some failure => (.error failure, s, done.disk)
  | none =>
    (.ok done.report, { s with remarks := s.remarks ++ summary ledger done.report }, done.disk)

/-- The passes of a run, and what follows from them. -/
def runPasses (s : Session) (d : Disk) : Except Failure Report × Session × Disk :=
  let (s, failure?) := if s.needsFacts then s.pass d observers false else (s, none)
  match failure? with
  | some failure => (.error failure, s, d)
  | none =>
    let s := s.settle d
    match s.pass d (s.proposers.map Listener.proposer) true with
    | (s, some failure) => (.error failure, s, d)
    | (s, none) => s.finish d

/-- A whole run, from no facts and no edits. Settings cannot change during a run. -/
def run (s : Session) (d : Disk) : Except Failure Report × Session × Disk :=
  let s := { s with db := Symbols.empty, ledger := s.ledger.clearEdits.freeze }
  let (result, s, d) := s.runPasses d
  (result, { s with ledger := s.ledger.thaw }, d)

end Session

end PhpRename
