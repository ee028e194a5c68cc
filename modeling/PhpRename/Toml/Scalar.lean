/-!
# Numbers and dates of TOML

Which words are numbers or dates. Their values do not matter here, only whether they have one: a
whole number has to fit into 64 bits, and a day has to be in the calendar.

* `Toml.isNumber`: the word is a number.
* `Toml.isDateTime`, `Toml.isLocalTime`: the word is a date, or a time of day.
-/

namespace PhpRename.Toml

/-- The pieces of a word between underscores. -/
def pieces : List Char → List (List Char)
  | [] => [[]]
  | c :: cs =>
    if c = '_' then [] :: pieces cs
    else
      match pieces cs with
      | [] => [[c]]
      | p :: ps => (c :: p) :: ps

/-- The word consists of digits, between which single underscores may stand. -/
def isDigits (digit : Char → Bool) (cs : List Char) : Bool :=
  (pieces cs).all fun p => !p.isEmpty && p.all digit

def isDecimal (c : Char) : Bool :=
  '0' ≤ c && c ≤ '9'

/-- The value of a digit in base sixteen. -/
def digitValue (c : Char) : Nat :=
  if isDecimal c then c.toNat - 48
  else if 'a' ≤ c ∧ c ≤ 'f' then c.toNat - 87
  else c.toNat - 55

def isHexadecimal (c : Char) : Bool :=
  isDecimal c || ('a' ≤ c && c ≤ 'f') || ('A' ≤ c && c ≤ 'F')

/-- The value of digits, underscores left out. -/
def value (base : Nat) (cs : List Char) : Nat :=
  (cs.filter (· ≠ '_')).foldl (fun n c => n * base + digitValue c) 0

/-- The word without a sign at its front, and whether that is a minus. -/
def unsigned : List Char → Bool × List Char
  | '-' :: cs => (true, cs)
  | '+' :: cs => (false, cs)
  | cs => (false, cs)

/-- Decimal digits, the first of which is a zero only if it is alone. -/
def isPlain (cs : List Char) : Bool :=
  isDigits isDecimal cs && (cs = ['0'] || cs.head? ≠ some '0')

/-- The first whole number that does not fit into 64 bits with a sign. -/
def integerBound : Nat := 0x8000000000000000

/-- A whole number that fits into 64 bits. -/
def isInteger (cs : List Char) : Bool :=
  let inBase := fun digit base digits => isDigits digit digits && value base digits < integerBound
  match cs with
  | '0' :: 'x' :: digits => inBase isHexadecimal 16 digits
  | '0' :: 'o' :: digits => inBase (fun c => '0' ≤ c && c ≤ '7') 8 digits
  | '0' :: 'b' :: digits => inBase (fun c => c = '0' || c = '1') 2 digits
  | cs =>
    let (negative, digits) := unsigned cs
    isPlain digits && value 10 digits < integerBound + (if negative then 1 else 0)

/-- The exponent of a number, with its letter. -/
def isExponent : List Char → Bool
  | e :: cs => (e = 'e' || e = 'E') && isDigits isDecimal (unsigned cs).2
  | [] => false

/-- A number with a point or an exponent, or one of the two that are neither. -/
def isFloat (cs : List Char) : Bool :=
  let cs := (unsigned cs).2
  let whole := cs.takeWhile fun c => isDecimal c || c = '_'
  if cs = "inf".toList ∨ cs = "nan".toList then true
  else if !isPlain whole then false
  else
    match cs.drop whole.length with
    | '.' :: rest =>
      let digits := rest.takeWhile fun c => isDecimal c || c = '_'
      let power := rest.drop digits.length
      isDigits isDecimal digits && (power.isEmpty || isExponent power)
    | rest => isExponent rest

/-- The word is a number. -/
def isNumber (cs : List Char) : Bool :=
  isInteger cs || isFloat cs

/-- The value of exactly `n` digits at the front of a word, with the rest. -/
def fixed? (n : Nat) (cs : List Char) : Option (Nat × List Char) :=
  let digits := cs.take n
  if digits.length = n ∧ digits.all isDecimal then some (value 10 digits, cs.drop n) else none

/-- The rest of a word that begins with `c`. -/
def after? (c : Char) : List Char → Option (List Char)
  | d :: cs => if c = d then some cs else none
  | [] => none

/-- The number of days of a month. -/
def daysIn (year month : Nat) : Nat :=
  if month = 2 then
    if year % 4 = 0 ∧ (year % 100 ≠ 0 ∨ year % 400 = 0) then 29 else 28
  else if month = 4 ∨ month = 6 ∨ month = 9 ∨ month = 11 then 30
  else 31

/-- The rest of a word after the date at its front. -/
def date? (cs : List Char) : Option (List Char) := do
  let (year, cs) ← fixed? 4 cs
  let (month, cs) ← fixed? 2 (← after? '-' cs)
  let (day, cs) ← fixed? 2 (← after? '-' cs)
  if 1 ≤ month ∧ month ≤ 12 ∧ 1 ≤ day ∧ day ≤ daysIn year month then some cs else none

/-- The rest of a word after hours and minutes. -/
def minutes? (cs : List Char) : Option (List Char) := do
  let (hour, cs) ← fixed? 2 cs
  let (minute, cs) ← fixed? 2 (← after? ':' cs)
  if hour ≤ 23 ∧ minute ≤ 59 then some cs else none

/-- The rest of a word after the time of day at its front. A minute may have a second too many. -/
def time? (cs : List Char) : Option (List Char) := do
  let cs ← minutes? cs
  let (second, cs) ← fixed? 2 (← after? ':' cs)
  if 60 < second then none
  else
    match cs with
    | '.' :: rest =>
      let digits := rest.takeWhile isDecimal
      if digits.isEmpty then none else some (rest.drop digits.length)
    | cs => some cs

/-- The rest of a word after the zone of a time, if one is given. -/
def zone? : List Char → Option (List Char)
  | c :: cs =>
    if c = 'Z' ∨ c = 'z' then some cs
    else if c = '+' ∨ c = '-' then minutes? cs
    else some (c :: cs)
  | [] => some []

/-- The word is a time of day, with a zone or without. -/
def isZonedTime (cs : List Char) : Bool :=
  (time? cs).bind zone? = some []

/-- The word is a date, or a date and a time of day, with a zone or without. -/
def isDateTime (cs : List Char) : Bool :=
  match date? cs with
  | none => false
  | some [] => true
  | some (c :: rest) => (c = 'T' || c = 't') && isZonedTime rest

/-- The word is a time of day without a zone. -/
def isLocalTime (cs : List Char) : Bool :=
  time? cs = some []

end PhpRename.Toml
