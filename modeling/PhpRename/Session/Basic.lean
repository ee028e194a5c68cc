import PhpRename.Disk.Place
import PhpRename.Ledger.Basic
import PhpRename.Remark
import PhpRename.Rename.Proposer
import PhpRename.Selection
import PhpRename.Settings

/-!
# Sessions

A session takes requests for renames, which a run then carries out on the files of the session.
Some requests need to know all files first; they leave a follow-up for after the first pass.

* `Session.renameClass`, `Session.renameClassFile`, `Session.renameMethod`, `Session.renameFile`:
  the requests.
* `Session.reset`: forgets all requests.
-/

namespace PhpRename

/-- A rename that was asked for, by a user or on account of one that was. -/
inductive Request where
  | renameClass (old new : String)
  | renameClassFile (old new : String)
  | renameMethod (cls old new : String) (inherited : Bool)
  | renameFile (old new : Path)
deriving Repr, BEq, Inhabited

/-- What is left to do when all files have been seen once. -/
inductive FollowUp where
  /-- Rename the method in all classes that inherit it. -/
  | descendants (cls old new : String)
  /-- Move the file that is named after the class. -/
  | classFile (old new : String)
deriving Repr, DecidableEq, Inhabited

/-- Requests, and what is needed to carry them out. -/
structure Session where
  selection : Selection
  /-- What is known of the files. -/
  db : Symbols
  ledger : Ledger
  proposers : List Proposer
  followUps : List FollowUp
  requests : List Request
  /-- The classes and methods of all method renames. -/
  methods : List (String × String)
  paths : List Path
  /-- All files have to be seen once before anything is proposed. -/
  needsFacts : Bool
  /-- What the user has been told, in order. -/
  remarks : List Remark

namespace Session

/-- Nothing has been asked for. -/
def new : Session :=
  ⟨Selection.default, Symbols.empty, Ledger.new, [], [], [], [], [], false, []⟩

/-- The session in another mode. -/
def setMode (s : Session) (m : Mode) : Except Failure Session :=
  (s.ledger.setMode m).map fun ledger => { s with ledger }

/-- The session with other globs for what is left out. -/
def leavingOut (s : Session) (patterns : List String) : Except Failure Session :=
  (s.selection.leavingOut patterns).map fun selection => { s with selection }

/-- The session with other extensions. -/
def withExtensions (s : Session) (m : Extensions) : Session :=
  { s with selection := { s.selection with extensions := m } }

/-- A session as the settings want it. -/
def ofSettings (settings : Settings) : Except Failure Session := do
  let s ← new.setMode settings.mode
  (s.withExtensions settings.extensions).leavingOut settings.ignored

/-- Tells the user something. -/
def tell (s : Session) (r : Remark) : Session :=
  { s with remarks := s.remarks ++ [r] }

/-- Adds a file or directory to look at. -/
def addPath (s : Session) (d : Disk) (p : Path) : Session :=
  let p := Path.absoluteFrom d.workingDirectory p
  if s.paths.contains p then s else { s with paths := s.paths ++ [p] }

/-- Asks for a class to be renamed wherever it is referred to. -/
def renameClass (s : Session) (old new : String) : Session :=
  { s with
    proposers := s.proposers ++ Proposer.ofClass old new
    requests := s.requests ++ [.renameClass old new] }

/-- Asks for a class to be renamed, and for its file to be moved if it is named after it. -/
def renameClassFile (s : Session) (old new : String) : Session :=
  let followUps := s.followUps ++ [FollowUp.classFile old new]
  let s := renameClass { s with followUps } old new
  { s with needsFacts := true, requests := s.requests ++ [.renameClassFile old new] }

/-- Asks for a method of a class to be renamed. Only the first request for a method counts. -/
def renameMethod (s : Session) (cls old new : String) (inherited : Bool) : Session :=
  if s.methods.contains (cls, old) then s
  else
    { s with
      methods := (cls, old) :: s.methods
      followUps := s.followUps ++ (if inherited then [.descendants cls old new] else [])
      proposers := s.proposers ++ Proposer.ofMethod cls old new
      needsFacts := true
      requests := s.requests ++ [.renameMethod cls old new inherited] }

/-- Queues a move, unless there is nothing to move or it may not be changed; then the user is told,
in the words of the request. -/
def queueMove (s : Session) (d : Disk) (old : Path) (m : Move) : Session :=
  if !d.hasEntry m.source then s.tell (.missing old)
  else if d.isLocked m.source then s.tell (.locked old)
  else { s with ledger := s.ledger.addMove m }

/-- Asks for a file to be moved and for the inclusions of it to follow. -/
def renameFile (s : Session) (d : Disk) (old new : Path) : Session :=
  let source := Path.absoluteFrom d.workingDirectory old
  let target := Path.absoluteFrom d.workingDirectory new
  let request := .renameFile source target
  if s.requests.contains request then s
  else
    let s := { s with proposers := s.proposers ++ Proposer.ofFile source target }
    let s := s.queueMove d old ⟨source, target⟩
    { s with requests := s.requests ++ [request] }

/-- Forgets everything but the mode, what is selected, and what has been said. -/
def reset (s : Session) : Session :=
  let ledger :=
    match Ledger.new.setMode s.ledger.mode with
    | .ok ledger => ledger
    | .error _ => Ledger.new
  { new with selection := s.selection, ledger, remarks := s.remarks }

end Session

end PhpRename
