import PhpRename.Php.Site

/-!
# What declarations a place stands in

The scopes of a file tell the class around a place and the function that its variables live in.
They do not tell whether that function is a method of the class, and a class without a name opens
none. What a place stands in is told here in full: each goal of the reader is *framed* by the
declarations around what it stands for, from the moment when it is first asked for.

* `Frame`: a declaration that other code stands in.
* `places`: the framed goals that the lexemes of a file meet.
* `parses`: the file meets all its goals.
* `Site.place?`: the framed goal that the token of a site has met.
-/

namespace PhpRename.Php

/-- A declaration that other code stands in. -/
inductive Frame where
  /-- A class, an interface, a trait or an enumeration. -/
  | cls (name : String)
  /-- A class without a name. -/
  | anonymous
  /-- A function that is a member of a class. -/
  | method
  /-- A function that a statement declares. -/
  | function
  /-- A function without a name. -/
  | closure
deriving DecidableEq, Repr

namespace Frame

/-- The innermost class with a name. -/
def cls? : List Frame → Option String
  | [] => none
  | .cls name :: _ => some name
  | _ :: frames => cls? frames

/-- The innermost declaration is that of a class, with a name or without. -/
def isBody : List Frame → Bool
  | .cls _ :: _ | .anonymous :: _ => true
  | _ => false

end Frame

/-- A goal, and the declarations around what it stands for, the innermost one first. -/
structure Framed where
  goal : Goal
  frames : List Frame
deriving DecidableEq, Repr

namespace Framed

/-- The goal `g`, asked for where `f` was met. The members of a class without a name stand in it. -/
def child (f : Framed) (g : Goal) : Framed :=
  ⟨g, if f.goal = .created ∧ g = .memberBlock then .anonymous :: f.frames else f.frames⟩

/-- The declaration that opens where `f` was met. -/
def frameOf (f : Framed) : Opening → Frame
  | .cls name => .cls name
  | .function _ => if f.goal = .members then .method else .function
  | .closure => .closure

/-- The goals of an opening, those that stand in what opens and those after it. -/
def opened (f : Framed) (o : Opening) (inner after : List Goal) : List Framed :=
  inner.map (⟨·, f.frameOf o :: f.frames⟩) ++ ⟨.leave 0, f.frames⟩ :: after.map f.child

/-- Lets the goals work until one takes the lexeme `l`, or until the steps run out: the goal that
has taken it, and those that are left. -/
def settle (l : Lexeme) (rest : List Lexeme) : Nat → List Framed → Option Framed × List Framed
  | 0, fs => (none, fs)
  | _ + 1, [] => (none, [])
  | steps + 1, f :: fs =>
    match f.goal.respondAt l rest with
    | .take _ more => (some f, more.map f.child ++ fs)
    | .become more => settle l rest steps (more.map f.child ++ fs)
    | .opens o inner after => settle l rest steps (f.opened o inner after ++ fs)
    | .miss => settle l rest steps fs

/-- The lexeme meets the goals. -/
def meet (l : Lexeme) (rest : List Lexeme) (fs : List Framed) : Option Framed × List Framed :=
  settle l rest (2 * fs.length + 64) fs

/-- The goals that the lexemes meet. Lexemes that say nothing to the goals meet none, and blanks
are left out, so there is one for each token. -/
def run (fs : List Framed) (look : List Lexeme) : List Lexeme → List (Option Framed)
  | [] => []
  | l :: rest =>
    if l.kind = .blank then run fs look rest
    else if Reader.isSilent l then none :: run fs look rest
    else
      let met := meet l look.tail fs
      met.1 :: run met.2 look.tail rest

/-- What is to be read at the front of a file, in no declaration. -/
def start : List Framed :=
  [⟨.statements, []⟩]

end Framed

/-- The lexemes that say something to the goals. -/
def spoken (ls : List Lexeme) : List Lexeme :=
  ls.filter fun l => !Reader.isSilent l

theorem spoken_cons_of_silent {l : Lexeme} (h : Reader.isSilent l = true) (ls : List Lexeme) :
    spoken (l :: ls) = spoken ls := by
  rw [spoken, List.filter_cons_of_neg (by simp [h]), spoken]

theorem spoken_cons {l : Lexeme} (h : Reader.isSilent l = false) (ls : List Lexeme) :
    spoken (l :: ls) = l :: spoken ls := by
  rw [spoken, List.filter_cons_of_pos (by simp [h]), spoken]

/-- The goals that the lexemes of a file meet, one for each token. -/
def places (content : List Char) : List (Option Framed) :=
  Framed.run Framed.start (spoken (lexemes content)) (lexemes content)

/-- The reader at the end of a file. -/
def lastReader (content : List Char) : Reader :=
  (Reader.start.run (spoken (lexemes content)) (lexemes content)).2

/-- The file meets all its goals, and where it ends none is left that asks for more. -/
def parses (content : List Char) : Bool :=
  ((lastReader content).meet Reader.fileEnd []).next.sound

/-- The framed goal that the token of a site has met, if it says something to the goals. -/
def Site.place? (s : Site) : Option Framed :=
  (places s.source.content.toList)[s.index]?.join

end PhpRename.Php
