import PhpRename.Command.Basic

/-!
# Help

What the program says of itself. Each table has its own width, that of its longest entry.

* `Command.help`: the help for the program, or for one of its commands.
-/

namespace PhpRename.Command

/-- The name and the version of the program. -/
def version : List String :=
  ["recast 0.4.0"]

/-- Text, filled up with blanks to a width. -/
def padded (width : Nat) (s : String) : String :=
  s ++ String.ofList (List.replicate (width - s.length) ' ')

/-- The lines of a table. -/
def table (title : String) (rows : List (String × String)) : List String :=
  let width := (rows.map fun r => r.1.length).foldl max 0
  "" :: (title ++ ":") :: rows.map fun (entry, text) => "  " ++ padded width entry ++ "  " ++ text

/-- The options that every command has. -/
def optionRows : List (String × String) :=
  [("-m, --mode <MODE>",
    "Edit mode: timid (report only), conservative (apply certain edits) or aggressive (apply all)"),
   ("-i, --ignore <IGNORE>", "Glob pattern for paths to skip (repeatable)"),
   ("-e, --ext <EXT>",
    "File extension to process (repeatable; replaces the configured set)"),
   ("-c, --config <CONFIG>", "Configuration file (defaults to ./recast.toml when present)"),
   ("-l, --log <LOG>", "Optional log file path for debug logging"),
   ("-h, --help", "Print help")]

/-- What a command does. -/
def purpose : Kind → String
  | .renameClass => "Rename a class"
  | .renameClassFile => "Rename a class and move the file it is defined in"
  | .renameMethod => "Rename a method of a class"
  | .renameFile => "Move a file and update the includes that point at it"

/-- The names of the words of a command. -/
def wordNames : Kind → List String
  | .renameMethod => ["<CLASS>", "<OLD>", "<NEW>"]
  | _ => ["<OLD>", "<NEW>"]

/-- The help for the program. -/
def programHelp : List String :=
  ["Confidence-graded class, method and file renaming for PHP", "",
   "Usage: recast [OPTIONS] <COMMAND>"] ++
    table "Commands" ((Kind.all.map fun k => (k.word, purpose k)) ++
      [("help", "Print this message or the help of the given subcommand(s)")]) ++
    table "Options" (optionRows ++ [("-V, --version", "Print version")])

/-- The help for a command. -/
def kindHelp (k : Kind) : List String :=
  let paths := "<PATHS>..."
  let usage := String.intercalate " " (["Usage: recast", k.word, "[OPTIONS]"] ++ wordNames k ++ [paths])
  let ofPaths := if k = .renameClass then "Files and directories to process" else ""
  let own :=
    if k = .renameMethod then
      [("    --no-inheritance", "Leave methods of child classes alone")]
    else []
  [purpose k, "", usage] ++
    table "Arguments" ((wordNames k).map (fun w => (w, "")) ++ [(paths, ofPaths)]) ++
    table "Options" (optionRows.take 1 ++ own ++ optionRows.drop 1)

/-- The help for asking for help. -/
def helpHelp : List String :=
  ["Print this message or the help of the given subcommand(s)", "",
   "Usage: recast help [COMMAND]..."] ++
    table "Arguments" [("[COMMAND]...", "Print help for the subcommand(s)")]

/-- The help for the program, or for one of its commands. -/
def help : Option Kind → List String
  | none => programHelp
  | some k => kindHelp k

end PhpRename.Command
