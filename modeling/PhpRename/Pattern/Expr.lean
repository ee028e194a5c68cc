import PhpRename.Pattern.Class

/-!
# Patterns as expressions

What a pattern describes, apart from how it is written.

* `Expr.nullable`: the expression may match nothing at all.
* `Expr.weight`: how large a program for the expression is.
-/

namespace PhpRename.Pattern

/-- A condition on a place in a text. -/
inductive Look where
  | textStart
  | textEnd
  | lineStart
  | lineEnd
  /-- The start of a line that may end with a carriage return as well. -/
  | crlfStart
  | crlfEnd
  /-- Just one of the two characters around is a word character. -/
  | edge (ascii : Bool)
  | notEdge (ascii : Bool)
  | wordStart (ascii : Bool)
  | wordEnd (ascii : Bool)
  /-- No word character comes before. -/
  | halfStart (ascii : Bool)
  /-- No word character comes after. -/
  | halfEnd (ascii : Bool)
deriving DecidableEq, Repr

namespace Look

/-- The condition holds between two characters, which are absent at the ends of the text. -/
def holds (l : Look) (before after : Option Char) : Bool :=
  let isWord := fun (ascii : Bool) (c : Char) =>
    if ascii then Unicode.isAsciiWord c else Unicode.isWord c
  match l with
  | textStart => before.isNone
  | textEnd => after.isNone
  | lineStart => before.all (· = '\n')
  | lineEnd => after.all (· = '\n')
  | crlfStart => before.all fun c => c = '\n' || (c = '\r' && after ≠ some '\n')
  | crlfEnd => after.all fun c => c = '\r' || (c = '\n' && before ≠ some '\r')
  | edge a => before.any (isWord a) != after.any (isWord a)
  | notEdge a => before.any (isWord a) == after.any (isWord a)
  | wordStart a => !before.any (isWord a) && after.any (isWord a)
  | wordEnd a => before.any (isWord a) && !after.any (isWord a)
  | halfStart a => !before.any (isWord a)
  | halfEnd a => !after.any (isWord a)

end Look

/-- A pattern. -/
inductive Expr where
  /-- Matches nothing at all. -/
  | empty
  /-- One character. -/
  | char (s : CharClass)
  | look (l : Look)
  /-- What the expression matches is kept under a number. -/
  | group (index : Nat) (e : Expr)
  | seq (e f : Expr)
  /-- The first of the two that matches. -/
  | alt (e f : Expr)
  /-- As often as can be, or as rarely as can be, within bounds. -/
  | rep (least : Nat) (most : Option Nat) (greedy : Bool) (e : Expr)

namespace Expr

/-- The expression may match nothing at all. -/
def nullable : Expr → Bool
  | empty => true
  | char _ => false
  | look _ => true
  | group _ e => nullable e
  | seq e f => nullable e && nullable f
  | alt e f => nullable e || nullable f
  | rep least _ _ e => least = 0 || nullable e

/-- The expression can match nothing but the empty text. -/
def isEmptyOnly : Expr → Bool
  | empty => true
  | char _ => false
  | look _ => true
  | group _ e => isEmptyOnly e
  | seq e f => isEmptyOnly e && isEmptyOnly f
  | alt e f => isEmptyOnly e && isEmptyOnly f
  | rep _ _ _ e => isEmptyOnly e

/-- The expression repeated. To match the empty text more than once is to match it once. -/
def repeated (least : Nat) (most : Option Nat) (greedy : Bool) (e : Expr) : Expr :=
  let (least, most) :=
    if e.isEmptyOnly then (min least 1, some (min (most.getD 1) 1)) else (least, most)
  if most = some 0 then empty
  else if least = 1 ∧ most = some 1 then e
  else rep least most greedy e

/-- The number of entries that a program for the expression has. -/
def weight : Expr → Nat
  | empty => 1
  | char s => max 1 s.weight
  | look _ => 1
  | group _ e => weight e + 2
  | seq e f => weight e + weight f
  | alt e f => weight e + weight f + 1
  | rep least most _ e =>
    match most with
    | some most => max 1 (most * (weight e + 1) - least)
    | none => max 1 least * weight e + 2

/-- The most that a program may have. -/
def weightLimit : Nat :=
  327000

end Expr

end PhpRename.Pattern
