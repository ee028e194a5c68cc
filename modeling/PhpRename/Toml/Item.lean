/-!
# Items of TOML documents

A document is a table of items under keys. A table can be opened by a header, be written in
braces, or come about because a header or a dotted key leads through it; which of these it was
decides what may still be added to it.

* `Toml.addPair`: adds a pair under a dotted key.
* `Toml.openTable`, `Toml.openRow`: what a header does.
-/

namespace PhpRename.Toml

/-- How a table came about. -/
inductive Origin where
  /-- It was written in braces, and is complete. -/
  | inline
  /-- A header opened it. -/
  | header
  /-- A header leads through it. -/
  | implied
  /-- A dotted key leads through it. -/
  | dotted
deriving DecidableEq, Repr, Inhabited

/-- What stands under a key. -/
inductive Item where
  | text (s : String)
  | flag (b : Bool)
  /-- A number or a date. -/
  | scalar
  | array (items : List Item)
  | table (origin : Origin) (fields : List (String × Item))
  /-- Tables that headers opened one after the other: those before the last, and the last. -/
  | rows (before : List (List (String × Item))) (last : List (String × Item))
deriving Repr, Inhabited

/-- The items of a table under their keys, in the order in which they came. -/
abbrev Fields := List (String × Item)

/-- The fields with another item under a key. -/
def Fields.replace (fields : Fields) (key : String) (item : Item) : Fields :=
  fields.map fun f => if f.1 = key then (key, item) else f

/-- Changes the table that keys lead to. The tables on the way are made if they are not there. A
dotted key leads through no table that a header has opened. `change` is told whether the table
came about by dotted keys. -/
def descend (byDots : Bool) (change : Bool → Fields → Option Fields) :
    List String → Bool → Fields → Option Fields
  | [], isDotted, fields => change isDotted fields
  | key :: keys, _, fields =>
    match fields.lookup key with
    | none =>
      (descend byDots change keys byDots []).map fun inner =>
        fields ++ [(key, .table (if byDots then .dotted else .implied) inner)]
    | some (.table origin inner) =>
      if origin = .inline ∨ (byDots ∧ origin = .header) then none
      else
        (descend byDots change keys (origin = .dotted) inner).map fun inner =>
          fields.replace key (.table origin inner)
    | some (.rows before last) =>
      (descend byDots change keys false last).map fun last =>
        fields.replace key (.rows before last)
    | some _ => none

/-- Adds a pair to a table. The key must be new, and all but its last part must lead to a table
that dotted keys have made. -/
def addPair (keys : List String) (item : Item) (fields : Fields) : Option Fields :=
  match keys.getLast? with
  | none => none
  | some key =>
    descend true (fun isDotted fields =>
      if isDotted = keys.dropLast.isEmpty || (fields.lookup key).isSome then none
      else some (fields ++ [(key, item)])) keys.dropLast false fields

/-- Adds a pair to the table that a header has opened. -/
def addPairUnder (header keys : List String) (item : Item) (fields : Fields) : Option Fields :=
  descend false (fun _ => addPair keys item) header false fields

/-- Changes what stands under the last key of a header. -/
def atHeader (header : List String) (change : String → Fields → Option Fields) (fields : Fields) :
    Option Fields :=
  match header.getLast? with
  | none => none
  | some key => descend false (fun _ => change key) header.dropLast false fields

/-- Opens a table. No header may have opened it before, and no dotted key may have made it. -/
def openTable (header : List String) (fields : Fields) : Option Fields :=
  atHeader header (fun key fields =>
    match fields.lookup key with
    | none => some (fields ++ [(key, .table .header [])])
    | some (.table .implied inner) => some (fields.replace key (.table .header inner))
    | some _ => none) fields

/-- Opens one more of several tables under one key. -/
def openRow (header : List String) (fields : Fields) : Option Fields :=
  atHeader header (fun key fields =>
    match fields.lookup key with
    | none => some (fields ++ [(key, .rows [] [])])
    | some (.rows before last) => some (fields.replace key (.rows (before ++ [last]) []))
    | some _ => none) fields

end PhpRename.Toml
