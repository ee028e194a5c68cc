import PhpRename.Mode.Word
import PhpRename.Settings

/-!
# Commands

A command line names a command, what it is to rename, and the files to look at. Options change
the settings for it.

* `Command.Options.updatedBy`: options given twice, before and after the name of the command.
* `Command.Options.amend`: the settings with the options.
-/

namespace PhpRename

namespace Command

/-- What can be asked for. -/
inductive Kind where
  | renameClass
  | renameClassFile
  | renameMethod
  | renameFile
deriving DecidableEq, Repr, Inhabited

namespace Kind

def all : List Kind :=
  [renameClass, renameClassFile, renameMethod, renameFile]

/-- The name of the command. -/
def word : Kind → String
  | renameClass => "rename-class"
  | renameClassFile => "rename-class-file"
  | renameMethod => "rename-method"
  | renameFile => "rename-file"

/-- The command with this name. -/
def ofWord? (s : String) : Option Kind :=
  all.find? fun k => k.word = s

/-- The number of words before the paths. -/
def arity : Kind → Nat
  | renameMethod => 3
  | _ => 2

/-- The word at a position is a path. -/
def takesPath (k : Kind) (position : Nat) : Bool :=
  k = renameFile || k.arity ≤ position

end Kind

/-- What options say. -/
structure Options where
  mode? : Option String
  ignored : List String
  extensions : List String
  settings? : Option Path
  log? : Option Path
deriving Repr, Inhabited

namespace Options

/-- No option. -/
def none : Options :=
  ⟨.none, [], [], .none, .none⟩

/-- Options of which those of `inner` count where it has any. -/
def updatedBy (outer inner : Options) : Options where
  mode? := inner.mode?.or outer.mode?
  ignored := if inner.ignored.isEmpty then outer.ignored else inner.ignored
  extensions := if inner.extensions.isEmpty then outer.extensions else inner.extensions
  settings? := inner.settings?.or outer.settings?
  log? := inner.log?.or outer.log?

/-- An extension without the points that it may be written with. -/
def plainExtension (s : String) : String :=
  String.ofList (s.toList.dropWhile (· = '.'))

/-- The settings with the options. Globs are added; extensions replace all others. -/
def amend (o : Options) (s : Settings) : Except Failure Settings := do
  let mode ←
    match o.mode? with
    | .none => .ok s.mode
    | some word => Mode.read word
  let extensions :=
    if o.extensions.isEmpty then s.extensions
    else Extensions.ofList (o.extensions.map fun ext => (plainExtension ext, true))
  return ⟨mode, extensions, s.ignored ++ o.ignored⟩

end Options

end Command

/-- A command, with all that it needs. -/
structure Command where
  kind : Command.Kind
  /-- What comes before the paths. -/
  words : List String
  paths : List Path
  /-- A method is renamed in classes that inherit it too. -/
  inherited : Bool
  options : Command.Options
deriving Repr, Inhabited

end PhpRename
