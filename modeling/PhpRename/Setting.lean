import PhpRename.Mode

/-!
# Settings of a run

A setting is a value under a key. What value that may be is known only for the mode.

* `Setting.mode?`: the mode that a value stands for.
-/

namespace PhpRename

/-- The value of a setting. -/
inductive Setting where
  | null
  | flag (b : Bool)
  | number (n : Int)
  | text (s : String)
  | list (items : List Setting)
  | record (fields : List (String × Setting))
deriving Repr, Inhabited

namespace Setting

/-- The key of the setting for the mode. -/
def modeKey : String := "edit_mode"

/-- The mode that a value stands for: the word for a mode, or a record with nothing else in it
than that word as the key of nothing. -/
def mode? : Setting → Option Mode
  | text s => Mode.ofWord? s
  | record [(key, null)] => Mode.ofWord? key
  | _ => none

/-- The value for a mode. -/
def ofMode (m : Mode) : Setting :=
  text m.word

end Setting

end PhpRename
