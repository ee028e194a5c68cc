import PhpRename.Pattern.Basic

/-!
# Replacement templates

In a replacement, `$name` and `${name}` stand for what a group of the match has matched, by its
name or its number, and `$$` for a dollar sign. A group that is not there, or that matched
nothing, gives no text.

* `Template.fill`: the replacement for a match.
-/

namespace PhpRename.Pattern.Template

/-- A letter, digit or underscore of ASCII. -/
def isNameChar (c : Char) : Bool :=
  Unicode.isAsciiWord c

/-- The number that a name writes. -/
def number? (name : List Char) : Option Nat :=
  let digits := match name with
    | '+' :: rest => rest
    | _ => name
  if digits ≠ [] ∧ digits.all (fun c => '0' ≤ c && c ≤ '9') then
    let n := digits.foldl (fun n c => 10 * n + (c.toNat - '0'.toNat)) 0
    if n < 0x10000000000000000 then some n else none
  else none

/-- The text of the group with a name. -/
def group (names : List (String × Nat)) (groups : List (Option String)) (name : List Char) :
    List Char :=
  let index := match number? name with
    | some n => some n
    | none => names.lookup (String.ofList name)
  match index with
  | some n => (((groups[n]?).getD none).getD "").toList
  | none => []

/-- The name of a group at the front of the text after a dollar sign, and its number of
characters. -/
def reference? (cs : List Char) : Option (List Char × Nat) :=
  match cs with
  | [] => none
  | c :: rest =>
    if c = '{' then
      let name := rest.takeWhile (· ≠ '}')
      if name.length < rest.length then some (name, name.length + 2) else none
    else
      let name := cs.takeWhile isNameChar
      if name = [] then none else some (name, name.length)

/-- The replacement that a template makes. `skip` characters belong to the last reference. -/
def expand (names : List (String × Nat)) (groups : List (Option String)) (skip : Nat) :
    List Char → List Char
  | [] => []
  | c :: cs =>
    match skip with
    | k + 1 => expand names groups k cs
    | 0 =>
      if c ≠ '$' then c :: expand names groups 0 cs
      else if cs.head? = some '$' then '$' :: expand names groups 1 cs
      else
        match reference? cs with
        | some (name, n) => group names groups name ++ expand names groups n cs
        | none => '$' :: expand names groups 0 cs

/-- The replacement for a match. -/
def fill (p : Pattern) (m : Match) (template : String) : String :=
  String.ofList (expand p.names m.groups 0 template.toList)

end PhpRename.Pattern.Template
