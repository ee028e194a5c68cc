import PhpRename.Pattern.Escape

/-!
# Reading classes in brackets

A class in brackets lists characters, ranges and further classes. Two such lists may be joined by
an operation; operations are done from the left.

* `bracket?`: the class that begins after an opening bracket, and the text after it.
-/

namespace PhpRename.Pattern

open Unicode (isSpace)

/-- A class that has been read, with the depth to which its brackets are nested. -/
structure ClassPart where
  cls : CharClass
  depth : Nat

namespace ClassPart

/-- The part that lists the given parts. -/
def list (parts : List ClassPart) : ClassPart :=
  let deepest := parts.foldl (fun d p => max d p.depth) 0
  ⟨.all (parts.map (·.cls)), if parts.length ≤ 1 then deepest else deepest + 1⟩

end ClassPart

/-- An operation on two classes. -/
inductive ClassOp where
  | inter
  | minus
  | differ
deriving DecidableEq, Repr

namespace ClassOp

/-- The operation whose sign stands at the front of a text. -/
def sign? : List Char → Option ClassOp
  | '&' :: '&' :: _ => some inter
  | '-' :: '-' :: _ => some minus
  | '~' :: '~' :: _ => some differ
  | _ => none

/-- Does the operation, without regard to case if case does not matter. -/
def join (op : ClassOp) (f : Flags) (a b : ClassPart) : ClassPart :=
  let s := f.fold a.cls
  let t := f.fold b.cls
  let cls := match op with
    | inter => CharClass.inter s t
    | minus => .minus s t
    | differ => .differ s t
  ⟨cls, max a.depth b.depth + 1⟩

end ClassOp

/-- An open bracket. -/
structure OpenClass where
  negated : Bool
  /-- What stood before it in the bracket around it. -/
  outer : List ClassPart
  /-- The left side of an operation that waits for its right side. -/
  pending : Option (ClassPart × ClassOp)

/-- A class that is being read. -/
structure ClassReader where
  /-- The brackets that are open, the innermost first. -/
  opened : List OpenClass
  /-- What has been listed since the last bracket or sign. -/
  parts : List ClassPart
  rest : List Char

namespace ClassReader

/-- What stands directly after an opening bracket: whether the complement is meant, the
characters that stand for themselves there, and the text after them. -/
def opening? (f : Flags) (cs : List Char) : Option (Bool × List ClassPart × List Char) := do
  let cs := f.blanks cs
  let (negated, cs) ←
    match cs with
    | [] => none
    | '^' :: rest => some (true, f.blanks rest)
    | _ => some (false, cs)
  let (dashes, cs) := dashesFrom f cs.length cs
  match cs with
  | [] => none
  | ']' :: rest =>
    if dashes = 0 then
      let rest := f.blanks rest
      if rest = [] then none else some (negated, [⟨.one ']', 0⟩], rest)
    else some (negated, List.replicate dashes ⟨.one '-', 0⟩, cs)
  | _ => some (negated, List.replicate dashes ⟨.one '-', 0⟩, cs)
where
  /-- The number of dashes at the front of the text, at most `n`, and the text after them. -/
  dashesFrom (f : Flags) : Nat → List Char → Nat × List Char
    | n + 1, '-' :: rest =>
      let (k, rest) := dashesFrom f n (f.blanks rest)
      (k + 1, rest)
    | _, cs => (0, cs)

/-- Opens a bracket. -/
def enter? (f : Flags) (r : ClassReader) (cs : List Char) : Option ClassReader := do
  let (negated, parts, rest) ← opening? f cs
  return ⟨⟨negated, r.parts, none⟩ :: r.opened, parts, rest⟩

/-- The class named between `[:` and `:]` at the front of the text, and the text after it. -/
def namedClass? (f : Flags) (cs : List Char) : Option (CharClass × List Char) :=
  match cs with
  | '[' :: ':' :: rest => do
    let (negated, rest) := match rest with
      | '^' :: rest => (true, rest)
      | _ => (false, rest)
    let name := rest.takeWhile (· ≠ ':')
    match rest.drop name.length with
    | ':' :: ']' :: rest =>
      let s ← CharClass.named? (String.ofList name)
      let s := f.fold s
      return (if negated then .complement s else s, rest)
    | _ => none
  | _ => none

/-- A character or an escape. -/
def item? (f : Flags) (cs : List Char) : Option (Atom × List Char) :=
  match cs with
  | [] => none
  | '\\' :: rest => escape? f rest
  | c :: rest => some (.literal c false, rest)

/-- The code point of a character in a class. Where a class is one of bytes, only characters of
ASCII have one, and those that are written as bytes. -/
def point? (f : Flags) (a : Atom) : Option Nat :=
  match a with
  | .literal c isByte =>
    if f.unicode || isByte || c.toNat < 0x80 then some c.toNat else none
  | _ => none

/-- A character, a range or an escape in a class, and the text after it. -/
def range? (f : Flags) (cs : List Char) : Option (CharClass × List Char) := do
  let (first, rest) ← item? f cs
  match f.blanks rest with
  | [] => none
  | '-' :: after =>
    let next := (f.blanks after).head?
    if next = some ']' ∨ next = some '-' then single first ('-' :: after)
    else
      let (last, rest) ← item? f (f.blanks after)
      let low ← point? f first
      let high ← point? f last
      if high < low then none else some (.range low high, rest)
  | rest => single first rest
where
  single (a : Atom) (rest : List Char) : Option (CharClass × List Char) :=
    match a with
    | .set s => some (s, rest)
    | _ => (point? f a).map fun n => (.range n n, rest)

/-- What has been listed, with the operation that waits for it. -/
def gathered (f : Flags) (pending : Option (ClassPart × ClassOp)) (parts : List ClassPart) :
    ClassPart :=
  let part := ClassPart.list parts.reverse
  match pending with
  | some (left, op) => op.join f left part
  | none => part

/-- Reads on until the outermost bracket is closed, `n` steps at most. -/
def run (f : Flags) : Nat → ClassReader → Option (ClassPart × List Char)
  | 0, _ => none
  | n + 1, r =>
    match f.blanks r.rest, r.opened with
    | [], _ => none
    | _, [] => none
    | c :: cs, top :: outer =>
      if c = '[' then
        match namedClass? f (c :: cs) with
        | some (s, rest) => run f n { r with parts := ⟨s, 0⟩ :: r.parts, rest }
        | none => do run f n (← enter? f r cs)
      else if c = ']' then
        let whole := gathered f top.pending r.parts
        let s := f.fold whole.cls
        let part : ClassPart := ⟨if top.negated then .complement s else s, whole.depth + 1⟩
        match outer with
        | [] => some (part, cs)
        | _ :: _ => run f n ⟨outer, part :: top.outer, cs⟩
      else
        match ClassOp.sign? (c :: cs) with
        | some op =>
          let left := gathered f top.pending r.parts
          run f n ⟨{ top with pending := some (left, op) } :: outer, [], cs.drop 1⟩
        | none => do
          let (s, rest) ← range? f (c :: cs)
          run f n { r with parts := ⟨s, 0⟩ :: r.parts, rest }

end ClassReader

/-- The class whose opening bracket stands before the text, and the text after it. -/
def bracket? (f : Flags) (cs : List Char) : Option (ClassPart × List Char) := do
  let r ← ClassReader.enter? f ⟨[], [], cs⟩ cs
  r.run f (cs.length + 1)

end PhpRename.Pattern
