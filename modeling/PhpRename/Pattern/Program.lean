import PhpRename.Pattern.Expr

/-!
# Programs for patterns

A program is a list of states. From a state one may go on to others, some of them only over a
character or where a condition holds. Where there are two ways on, the first is preferred.

* `Expr.compile`: the program for an expression.
-/

namespace PhpRename.Pattern

/-- A state of a program, with the states to go on to. -/
inductive State where
  /-- Goes on over a character of the class. -/
  | char (s : CharClass) (next : Nat)
  /-- Goes on where the condition holds. -/
  | look (l : Look) (next : Nat)
  /-- Keeps the place in a slot. -/
  | keep (slot next : Nat)
  /-- Goes on in the first way, or else in the second. -/
  | fork (first second : Nat)
  /-- The text matches. -/
  | done

/-- The states so far, with the one at which what has been compiled begins. -/
structure Compiled where
  states : Array State
  entry : Nat

namespace Compiled

/-- Adds a state, at which things now begin. -/
def add (c : Compiled) (s : State) : Compiled :=
  ⟨c.states.push s, c.states.size⟩

/-- Goes on in one of two ways; the first is the one to be preferred if `greedy` holds. -/
def forkOf (greedy : Bool) (first second : Nat) : State :=
  if greedy then .fork first second else .fork second first

/-- Puts `n` copies in front, each made by `one`. -/
def copies (one : Compiled → Compiled) : Nat → Compiled → Compiled
  | 0, c => c
  | n + 1, c => copies one n (one c)

/-- Puts `n` copies in front, each with a way past it and all that follow, to the state `past`. -/
def options (one : Compiled → Compiled) (greedy : Bool) (past : Nat) : Nat → Compiled → Compiled
  | 0, c => c
  | n + 1, c =>
    let body := one c
    options one greedy past n (body.add (forkOf greedy body.entry past))

/-- Puts one copy or more in front: after a copy there is a way back to it. Gives the state of the
way back too. -/
def loop (one : Compiled → Compiled) (greedy : Bool) (c : Compiled) : Compiled × Nat :=
  let turn := c.add (.fork c.entry c.entry)
  let body := one turn
  (⟨body.states.setIfInBounds turn.entry (forkOf greedy body.entry c.entry), body.entry⟩, turn.entry)

/-- Puts any number of copies in front. A copy that may match nothing is made optional as a whole
loop, which keeps the order of preference among its matches. -/
def star (one : Compiled → Compiled) (nullable greedy : Bool) (c : Compiled) : Compiled :=
  let (body, turn) := loop one greedy c
  if nullable then body.add (forkOf greedy body.entry c.entry)
  else { body with entry := turn }

end Compiled

namespace Expr

open Compiled in
/-- Puts the states of the expression in front of what has been compiled. -/
def compileBefore : Expr → Compiled → Compiled
  | empty, c => c
  | char s, c => c.add (.char s c.entry)
  | look l, c => c.add (.look l c.entry)
  | group n e, c =>
    let inner := compileBefore e (c.add (.keep (2 * n + 1) c.entry))
    inner.add (.keep (2 * n) inner.entry)
  | seq e f, c => compileBefore e (compileBefore f c)
  | alt e f, c =>
    let second := compileBefore f c
    let first := compileBefore e { second with entry := c.entry }
    first.add (.fork first.entry second.entry)
  | rep least most greedy e, c =>
    match most with
    | some most =>
      copies (compileBefore e) least
        (options (compileBefore e) greedy c.entry (most - least) c)
    | none =>
      match least with
      | 0 => star (compileBefore e) e.nullable greedy c
      | n + 1 => copies (compileBefore e) n (loop (compileBefore e) greedy c).1

/-- The program for the expression. -/
def compile (e : Expr) : Compiled :=
  compileBefore e ⟨#[.done], 0⟩

end Expr

end PhpRename.Pattern
