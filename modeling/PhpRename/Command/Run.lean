import PhpRename.Command.Reader
import PhpRename.Session.Run

/-!
# Carrying out commands

* `Command.run`: carries out a command on a disk.
* `Command.runLine`: what comes of a command line.
-/

namespace PhpRename.Command

/-- Why a command could not be carried out. -/
inductive Complaint where
  /-- The settings could not be had from this file. -/
  | settings (file : Path)
  /-- What the settings say cannot be used. -/
  | useless
  /-- The run failed. -/
  | failed
  | other (failure : Failure)
deriving Repr

/-- The complaint in words. -/
def Complaint.message : Complaint → String
  | settings file => "Failed to load " ++ file.spelling
  | useless => "Invalid configuration"
  | failed => "Refactoring failed"
  | other failure => failure.message

/-- What has come of a command line. -/
structure Outcome where
  /-- What the process tells by ending: 0 that all went well, 1 that something could not be done,
  2 that the command line was wrong. -/
  exit : Nat
  lines : List String
  complaint? : Option Complaint
  disk : Disk
deriving Inhabited

/-- The settings for a command. -/
def settings (c : Command) (d : Disk) : Except Complaint Settings := do
  let settings ←
    match c.options.settings? with
    | some p => (Settings.load d p).mapError fun _ => .settings p
    | none => (Settings.discover d d.workingDirectory).mapError fun _ => .settings ⟨Settings.fileName⟩
  (c.options.amend settings).mapError .other

/-- The session with what the command asks for. -/
def request (c : Command) (d : Disk) (s : Session) : Session :=
  match c.kind, c.words with
  | .renameClass, [old, new] => s.renameClass old new
  | .renameClassFile, [old, new] => s.renameClassFile old new
  | .renameMethod, [cls, old, new] => s.renameMethod cls old new c.inherited
  | .renameFile, [old, new] => s.renameFile d ⟨old⟩ ⟨new⟩
  | _, _ => s

/-- Carries out a command. -/
def run (c : Command) (d : Disk) : Outcome :=
  let prepared := do
    let settings ← c.settings d
    (Session.ofSettings settings).mapError fun _ => Complaint.useless
  match prepared with
  | .error complaint => ⟨1, [], some complaint, d⟩
  | .ok s =>
    let s := c.paths.foldl (fun s p => s.addPath d p) (c.request d s)
    let (result, s, d) := s.run d
    let lines := s.remarks.map Remark.text
    match result with
    | .ok _ => ⟨0, lines, none, d⟩
    | .error _ => ⟨1, lines, some .failed, d⟩

/-- What comes of a command line. -/
def runLine (args : List String) (d : Disk) : Outcome :=
  match read args with
  | .ok c => c.run d
  | .error (.answer lines) => ⟨0, lines, none, d⟩
  | .error .misuse => ⟨2, [], none, d⟩

end PhpRename.Command
