import PhpRename.Unicode.Case
import PhpRename.Unicode.Word

/-!
# Classes of characters

A class describes a set of characters by ranges and by the operations that brackets in a pattern
have.

* `CharClass.mem`: a character belongs to a class.
* `CharClass.weight`: how large a class is as a table.
-/

namespace PhpRename.Pattern

open Unicode

/-- A set of characters. -/
inductive CharClass where
  | nothing
  /-- The code points from `low` to `high`. -/
  | range (low high : Nat)
  | table (ranges : Ranges)
  | word
  | digit
  | space
  /-- The characters equal to a member where case does not matter. -/
  | caseless (s : CharClass)
  /-- The same, for letters of ASCII only. -/
  | asciiCaseless (s : CharClass)
  | complement (s : CharClass)
  | union (s t : CharClass)
  | inter (s t : CharClass)
  | minus (s t : CharClass)
  /-- The members of exactly one of the two. -/
  | differ (s t : CharClass)

namespace CharClass

/-- The other case of an ASCII letter. -/
def swapAscii (c : Char) : Char :=
  if 'a' ≤ c ∧ c ≤ 'z' then Char.ofNat (c.toNat - 32)
  else if 'A' ≤ c ∧ c ≤ 'Z' then Char.ofNat (c.toNat + 32)
  else c

/-- The character belongs to the class. -/
def mem : CharClass → Char → Bool
  | nothing => fun _ => false
  | range low high => fun c => low ≤ c.toNat && c.toNat ≤ high
  | table ranges => fun c => ranges.has c.toNat
  | word => isWord
  | digit => isDigit
  | space => isSpace
  | caseless s => fun c => (variants c).any (mem s)
  | asciiCaseless s => fun c => mem s c || mem s (swapAscii c)
  | complement s => fun c => !mem s c
  | union s t => fun c => mem s c || mem t c
  | inter s t => fun c => mem s c && mem t c
  | minus s t => fun c => mem s c && !mem t c
  | differ s t => fun c => mem s c != mem t c

/-- Roughly the number of entries that a table of the class has. A range beyond ASCII takes more
entries, for its characters take more bytes. -/
def weight : CharClass → Nat
  | nothing => 0
  | range _ high => if high < 0x80 then 1 else 2
  | table ranges => 2 * ranges.length
  | word => 1600
  | digit => 150
  | space => 20
  | caseless s => 2 * weight s
  | asciiCaseless s => 2 * weight s
  | complement s => weight s + 2
  | union s t | inter s t | minus s t | differ s t => weight s + weight t

/-- The class of one character. -/
def one (c : Char) : CharClass :=
  range c.toNat c.toNat

/-- The class of some characters. -/
def ofChars (cs : List Char) : CharClass :=
  cs.foldl (fun s c => union s (one c)) nothing

/-- The union of some classes. -/
def all (ss : List CharClass) : CharClass :=
  ss.foldl union nothing

/-- The characters of ASCII. -/
def ascii : CharClass :=
  range 0 0x7F

/-- The words, digits and blanks of ASCII. -/
def asciiWord : CharClass :=
  all [range 0x30 0x39, range 0x41 0x5A, range 0x5F 0x5F, range 0x61 0x7A]

def asciiDigit : CharClass :=
  range 0x30 0x39

def asciiSpace : CharClass :=
  union (range 0x09 0x0D) (range 0x20 0x20)

/-- The classes that are named between `[:` and `:]`. -/
def named? (name : String) : Option CharClass :=
  match name with
  | "alnum" => some (all [range 0x30 0x39, range 0x41 0x5A, range 0x61 0x7A])
  | "alpha" => some (all [range 0x41 0x5A, range 0x61 0x7A])
  | "ascii" => some ascii
  | "blank" => some (all [range 0x09 0x09, range 0x20 0x20])
  | "cntrl" => some (all [range 0x00 0x1F, range 0x7F 0x7F])
  | "digit" => some asciiDigit
  | "graph" => some (range 0x21 0x7E)
  | "lower" => some (range 0x61 0x7A)
  | "print" => some (range 0x20 0x7E)
  | "punct" => some (all [range 0x21 0x2F, range 0x3A 0x40, range 0x5B 0x60, range 0x7B 0x7E])
  | "space" => some asciiSpace
  | "upper" => some (range 0x41 0x5A)
  | "word" => some asciiWord
  | "xdigit" => some (all [range 0x30 0x39, range 0x41 0x46, range 0x61 0x66])
  | _ => none

end CharClass

end PhpRename.Pattern
