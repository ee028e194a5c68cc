import PhpRename.Disk.Place
import PhpRename.Disk.Access
import PhpRename.Ledger.Basic
import PhpRename.Selection
import PhpRename.Survey.Listener

/-!
# Passes over files

A pass reads the selected files in order and shows each to its listeners. Files that hold no text
are left out. Only a pass that may propose changes puts the edits into the ledger.

* `Survey.pass`: what is known and gathered after a pass.
-/

namespace PhpRename

/-- What a pass has gone through. -/
structure Tally where
  files : Nat
  tokens : Nat
  edits : Nat
deriving Repr, Inhabited

/-- What is known and gathered. -/
structure Survey where
  db : Symbols
  ledger : Ledger
  tally : Tally
deriving Inhabited

namespace Survey

/-- What is known and gathered after one file. -/
def look (listeners : List Listener) (keep : Bool) (s : Survey) (source : Php.Source) : Survey :=
  let found := Findings.ofSource listeners s.db source
  let tally := { s.tally with
    files := s.tally.files + 1
    tokens := s.tally.tokens + source.tokens.length }
  if keep then
    ⟨found.db, found.edits.foldl Ledger.addEdit s.ledger,
      { tally with edits := tally.edits + found.edits.length }⟩
  else ⟨found.db, s.ledger, tally⟩

/-- What is known and gathered after the files, or until one cannot be read. -/
def lookAll (listeners : List Listener) (keep : Bool) (d : Disk) :
    List Path → Survey → Survey × Option Failure
  | [], s => (s, none)
  | p :: ps, s =>
    match d.read p with
    | .ok content => lookAll listeners keep d ps (s.look listeners keep (Php.Source.read p content))
    | .error .notText => lookAll listeners keep d ps s
    | .error fault => (s, some (.disk fault))

/-- What is known and gathered after a pass over the selected files at some paths. -/
def pass (listeners : List Listener) (keep : Bool) (selection : Selection) (d : Disk)
    (paths : List Path) (db : Symbols) (ledger : Ledger) : Survey × Option Failure :=
  lookAll listeners keep d (selection.files d paths) ⟨db, ledger, ⟨0, 0, 0⟩⟩

end Survey

end PhpRename
