import PhpRename.Pattern.Program

/-!
# Searching a text for a pattern

The ways through a program are tried in their order of preference. A state that has been tried at
a place is not tried there again, since it would fail again; so the search ends.

* `Search.run`: the preferred match that begins at a place.
* `find?`: the leftmost match from a place on.
* `findAll`: all matches, from the left.
-/

namespace PhpRename.Pattern

/-- What is left to do in a search. -/
inductive Job where
  | visit (state place : Nat)
  /-- Puts back what a slot held. -/
  | restore (slot : Nat) (value : Option Nat)

/-- A search in progress. -/
structure Search where
  jobs : List Job
  /-- Which states have been tried at which places. -/
  tried : Array Bool
  /-- The places that are kept, in order of their slots. -/
  slots : Array (Option Nat)

/-- A match: where it begins and ends, and the places that were kept. Places count characters. -/
structure Found where
  start : Nat
  stop : Nat
  slots : Array (Option Nat)

namespace Search

/-- The work that a state has at a place, in order of preference, with the slots from now on. -/
def work (text : Array Char) (s : State) (place : Nat) (slots : Array (Option Nat)) :
    List Job × Array (Option Nat) :=
  match s with
  | .char cls next =>
    match text[place]? with
    | some c => if cls.mem c then ([.visit next (place + 1)], slots) else ([], slots)
    | none => ([], slots)
  | .look l next =>
    let before := if place = 0 then none else text[place - 1]?
    if l.holds before text[place]? then ([.visit next place], slots) else ([], slots)
  | .keep slot next =>
    ([.visit next place, .restore slot (slots[slot]?.getD none)],
      slots.setIfInBounds slot (some place))
  | .fork first second => ([.visit first place, .visit second place], slots)
  | .done => ([], slots)

/-- Goes on until the text matches, or nothing is left to do, or the steps run out. Gives where
the match ends, with the search as it was then. -/
def run (states : Array State) (text : Array Char) : Nat → Search → Option Nat × Search
  | 0, s => (none, s)
  | steps + 1, s =>
    match s.jobs with
    | [] => (none, s)
    | .restore slot value :: jobs =>
      run states text steps { s with jobs, slots := s.slots.setIfInBounds slot value }
    | .visit i place :: jobs =>
      let key := i * (text.size + 1) + place
      if s.tried[key]?.getD true then run states text steps { s with jobs }
      else
        match states[i]? with
        | none => run states text steps { s with jobs }
        | some .done => (some place, s)
        | some state =>
          let (more, slots) := work text state place s.slots
          run states text steps
            { jobs := more ++ jobs, tried := s.tried.setIfInBounds key true, slots }

/-- Enough steps for a search: each state is tried at most once at each place, and each trial
leaves at most two jobs. -/
def steps (program : Compiled) (text : Array Char) : Nat :=
  3 * (program.states.size * (text.size + 1)) + 3

/-- The leftmost match that begins at `place` or, at the latest, `n` characters after it. `tried`
tells what has been tried before. -/
def leftmost (program : Compiled) (text : Array Char) (slotCount : Nat) :
    Nat → (place : Nat) → (tried : Array Bool) → Option Found
  | n, place, tried =>
    let s : Search := ⟨[.visit program.entry place], tried, Array.replicate slotCount none⟩
    match run program.states text (steps program text) s with
    | (some stop, s) => some ⟨place, stop, s.slots⟩
    | (none, s) =>
      match n with
      | 0 => none
      | n + 1 => leftmost program text slotCount n (place + 1) s.tried

/-- The leftmost match that begins at `place` or after it. -/
def find? (program : Compiled) (slotCount : Nat) (text : Array Char) (place : Nat) :
    Option Found :=
  if text.size < place then none
  else
    leftmost program text slotCount (text.size - place) place
      (Array.replicate (program.states.size * (text.size + 1)) false)

/-- The next match from `place` on. An empty match directly behind the last match does not
count. -/
def next? (program : Compiled) (slotCount : Nat) (text : Array Char) (place : Nat)
    (last : Option Nat) : Option Found :=
  match find? program slotCount text place with
  | none => none
  | some m =>
    if m.start = m.stop ∧ last = some m.stop then find? program slotCount text (place + 1)
    else some m

/-- All matches from `place` on, `n` at most. -/
def findFrom (program : Compiled) (slotCount : Nat) (text : Array Char) :
    Nat → (place : Nat) → (last : Option Nat) → List Found
  | 0, _, _ => []
  | n + 1, place, last =>
    match next? program slotCount text place last with
    | none => []
    | some m => m :: findFrom program slotCount text n m.stop (some m.stop)

/-- All matches, from the left. -/
def findAll (program : Compiled) (slotCount : Nat) (text : Array Char) : List Found :=
  findFrom program slotCount text (2 * text.size + 2) 0 none

end Search

end PhpRename.Pattern
