import PhpRename.Failure
import PhpRename.Php.Lexeme
import PhpRename.Unicode.Word

/-!
# Words for modes

A mode may be written in any case and with blanks around it.
-/

namespace PhpRename.Mode

/-- A word without blanks around it and in small letters. -/
def plainWord (s : String) : String :=
  let cs := (s.toList.dropWhile Unicode.isSpace).reverse.dropWhile Unicode.isSpace
  Php.lowercase (String.ofList cs.reverse)

/-- The mode that a word stands for. -/
def read (s : String) : Except Failure Mode :=
  match ofWord? (plainWord s) with
  | some m => .ok m
  | none => .error (.unknownMode (plainWord s))

end PhpRename.Mode
