import PhpRename.Php.Quoted

/-!
# The extent of a number

Numbers may hold single underscores between digits. A number is a float when it has a point or
an exponent.
-/

namespace PhpRename.Php

/-- A digit or an underscore. -/
def isDigitRest (c : Char) : Bool :=
  isDigit c || c = '_'

/-- A digit of a number written in base sixteen, or a letter or underscore standing in one. -/
def isRadixRest (c : Char) : Bool :=
  isDigitRest c || ('a' ≤ c && c ≤ 'f') || ('A' ≤ c && c ≤ 'F')

/-- Something that an operand may begin with. -/
def startsOperand (c : Char) : Bool :=
  isNameRest c || "$'\"([\\-+!@~<=\x60".toList.contains c

/-- The number of characters of an exponent, 0 when the text has none at its front. -/
def exponent (cs : List Char) : Nat :=
  match cs with
  | e :: rest =>
    if e = 'e' ∨ e = 'E' then
      let sign := (rest.take 1).takeWhile fun c => c = '+' || c = '-'
      let digits := (rest.drop sign.length).takeWhile isDigitRest
      if digits.head?.any isDigit then 1 + sign.length + digits.length else 0
    else 0
  | [] => 0

/-- The number of characters of a point and the digits after it, 0 when the text has none at its
front. A point with no digits after it belongs to the number only where no operand follows, for
there it would join two operands. -/
def fraction (cs : List Char) : Nat :=
  match cs with
  | '.' :: rest =>
    let digits := rest.takeWhile isDigitRest
    if digits.head?.any isDigit then 1 + digits.length
    else if rest.head? = some '.' then 0
    else if exponent rest > 0 then 1
    else if (rest.dropWhile isBlank).head?.any startsOperand then 0
    else 1
  | _ => 0

/-- The number at the front of a text that begins with a digit or a point: whether it is a float,
and its number of characters. -/
def number (cs : List Char) : Bool × Nat :=
  match cs with
  | '0' :: r :: rest =>
    if "xXbBoO".toList.contains r && rest.head?.any isRadixRest then
      (false, 2 + (rest.takeWhile isRadixRest).length)
    else decimal cs
  | _ => decimal cs
where
  decimal (cs : List Char) : Bool × Nat :=
    let whole := (cs.takeWhile isDigitRest).length
    let point := fraction (cs.drop whole)
    let power := exponent (cs.drop (whole + point))
    (point + power > 0, whole + point + power)

end PhpRename.Php
