/-!
# Byte offsets in text

Text is a list of characters; positions in it are byte offsets of its UTF-8 form.
An offset is a *boundary* when it falls between two characters (or at either end).

* `width`: the number of bytes of a text.
* `splitAt?`: the text cut at a boundary, `none` at any other offset.
* `slice`: the text between two boundaries.
-/

namespace PhpRename.Text

/-- Number of bytes the characters take in UTF-8. -/
def width : List Char → Nat
  | [] => 0
  | c :: cs => c.utf8Size + width cs

@[simp] theorem width_nil : width [] = 0 := rfl

@[simp] theorem width_cons (c : Char) (cs : List Char) : width (c :: cs) = c.utf8Size + width cs :=
  rfl

@[simp] theorem width_append (as bs : List Char) : width (as ++ bs) = width as + width bs := by
  induction as with
  | nil => simp
  | cons a as ih => simp [ih, Nat.add_assoc]

/-- The text before and after byte offset `n`; `none` inside a character and beyond the end. -/
def splitAt? : List Char → Nat → Option (List Char × List Char)
  | cs, 0 => some ([], cs)
  | [], _ + 1 => none
  | c :: cs, n + 1 =>
    if c.utf8Size ≤ n + 1 then
      (splitAt? cs (n + 1 - c.utf8Size)).map fun (before, after) => (c :: before, after)
    else none

/-- Byte offset `n` lies between two characters of the text or at one of its ends. -/
def isBoundary (cs : List Char) (n : Nat) : Bool :=
  (splitAt? cs n).isSome

/-- The text before byte offset `n`, all of it when `n` is no boundary. -/
def upTo (cs : List Char) (n : Nat) : List Char :=
  match splitAt? cs n with
  | some (before, _) => before
  | none => cs

/-- The text from byte offset `n` on, nothing when `n` is no boundary. -/
def beyond (cs : List Char) (n : Nat) : List Char :=
  match splitAt? cs n with
  | some (_, after) => after
  | none => []

/-- The text between the byte offsets `start` and `stop`. -/
def slice (cs : List Char) (start stop : Nat) : List Char :=
  beyond (upTo cs stop) start

end PhpRename.Text
