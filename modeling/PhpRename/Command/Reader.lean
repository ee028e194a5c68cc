import PhpRename.Command.Help

/-!
# Reading command lines

A command line is read from the left. Options may stand before and after the name of the command,
and between its words; after `--` there are only words. Asking for help or for the version ends
the reading.

* `Command.read`: what a command line asks for.
-/

namespace PhpRename.Command

/-- Why no command is carried out. -/
inductive Halt where
  /-- Lines are shown, and that is all. -/
  | answer (lines : List String)
  /-- The command line has not the right form. -/
  | misuse
deriving Repr

/-- An option that takes a value. -/
inductive Flag where
  | mode
  | ignore
  | ext
  | config
  | log
deriving DecidableEq, Repr

namespace Flag

/-- The option with this name. -/
def ofName? : String → Option Flag
  | "mode" => some mode
  | "ignore" => some ignore
  | "ext" => some ext
  | "config" => some config
  | "log" => some log
  | _ => none

/-- The option with this letter. -/
def ofLetter? : Char → Option Flag
  | 'm' => some mode
  | 'i' => some ignore
  | 'e' => some ext
  | 'c' => some config
  | 'l' => some log
  | _ => none

end Flag

/-- The options with the value of one more. Only extensions and globs may be given more than
once, and no path is empty. -/
def Options.add (o : Options) (f : Flag) (value : String) : Except Halt Options :=
  match f with
  | .mode => if o.mode?.isSome then .error .misuse else .ok { o with mode? := some value }
  | .ignore => .ok { o with ignored := o.ignored ++ [value] }
  | .ext => .ok { o with extensions := o.extensions ++ [value] }
  | .config =>
    if o.settings?.isSome ∨ value = "" then .error .misuse
    else .ok { o with settings? := some ⟨value⟩ }
  | .log =>
    if o.log?.isSome ∨ value = "" then .error .misuse else .ok { o with log? := some ⟨value⟩ }

/-- What has been read of a command line. -/
structure Reader where
  kind? : Option Kind
  /-- Options before the name of the command. -/
  outer : Options
  /-- Options since then. -/
  options : Options
  words : List String
  inherited : Bool
  /-- An option whose value comes next. -/
  awaited? : Option Flag
  /-- Only words come from now on. -/
  onlyWords : Bool
  /-- Help was asked for by name. -/
  helping : Bool

namespace Reader

/-- Nothing has been read. -/
def start : Reader :=
  ⟨none, Options.none, Options.none, [], true, none, false, false⟩

/-- The reader after the value of an option. -/
def give (r : Reader) (f : Flag) (value : String) : Except Halt Reader :=
  (r.options.add f value).map fun options => { r with options, awaited? := none }

/-- The reader after a word. -/
def word (r : Reader) (s : String) : Except Halt Reader :=
  match r.kind? with
  | some k =>
    if s = "" ∧ k.takesPath r.words.length then .error .misuse
    else .ok { r with words := r.words ++ [s] }
  | none =>
    if s = "help" ∧ !r.onlyWords then .ok { r with helping := true }
    else
      match Kind.ofWord? s with
      | some k =>
        if r.onlyWords then .error .misuse
        else .ok { r with kind? := some k, outer := r.options, options := Options.none }
      | none => .error .misuse

/-- The reader after an option by its name. -/
def long (r : Reader) (s : List Char) : Except Halt Reader :=
  let name := String.ofList (s.takeWhile (· ≠ '='))
  let value? := (s.dropWhile (· ≠ '=')).tail?
  match Flag.ofName? name, value? with
  | some f, some value => r.give f (String.ofList value)
  | some f, none => .ok { r with awaited? := some f }
  | none, some _ => .error .misuse
  | none, none =>
    if name = "help" then .error (.answer (help r.kind?))
    else if name = "version" ∧ r.kind?.isNone then .error (.answer version)
    else if name = "no-inheritance" ∧ r.kind? = some .renameMethod ∧ r.inherited then
      .ok { r with inherited := false }
    else .error .misuse

/-- The reader after an option by its letter, with what is written after that. -/
def short (r : Reader) (c : Char) (rest : List Char) : Except Halt Reader :=
  match Flag.ofLetter? c, rest with
  | some f, [] => .ok { r with awaited? := some f }
  | some f, '=' :: value => r.give f (String.ofList value)
  | some f, value => r.give f (String.ofList value)
  | none, _ =>
    if c = 'h' then .error (.answer (help r.kind?))
    else if c = 'V' ∧ r.kind?.isNone then .error (.answer version)
    else .error .misuse

/-- The reader after the name of a command for which help was asked. -/
def helpFor (r : Reader) (s : String) : Except Halt Reader :=
  match r.kind?, Kind.ofWord? s with
  | none, some k => .ok { r with kind? := some k }
  | none, none => if s = "help" then .error (.answer helpHelp) else .error .misuse
  | some _, _ => .error .misuse

/-- The reader after one more argument. -/
def step (r : Reader) (s : String) : Except Halt Reader :=
  if r.helping then r.helpFor s
  else if r.onlyWords then
    if r.awaited?.isSome then .error .misuse else r.word s
  else if s = "--" then .ok { r with onlyWords := true }
  else
    match s.toList, r.awaited? with
    | '-' :: _ :: _, some _ => .error .misuse
    | _, some f => r.give f s
    | '-' :: '-' :: name, none => r.long name
    | '-' :: c :: rest, none => r.short c rest
    | _, none => r.word s

/-- The command that has been read. -/
def finish (r : Reader) : Except Halt Command :=
  if r.helping then .error (.answer (help r.kind?))
  else
    match r.kind?, r.awaited? with
    | some k, none =>
      if r.words.length ≤ k.arity then .error .misuse
      else
        .ok ⟨k, r.words.take k.arity, (r.words.drop k.arity).map Path.mk, r.inherited,
          r.outer.updatedBy r.options⟩
    | _, _ => .error .misuse

end Reader

/-- What a command line asks for. -/
def read (args : List String) : Except Halt Command := do
  (← args.foldlM Reader.step Reader.start).finish

end PhpRename.Command
