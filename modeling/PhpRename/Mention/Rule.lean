import PhpRename.Pattern.Template
import PhpRename.Text.Scan

/-!
# Rules for mentions

A *mention* is a place in a comment or a string that is about what is being renamed. A rule says
which places are mentions and what is to be written there.

* `Rule.word`, `Rule.qualified`: a whole word, and a member written after its class.
* `Rule.ofPattern?`: whatever a pattern matches.
* `Rule.candidates`: the places that a rule finds in a text.
-/

namespace PhpRename.Mention

open Text

/-- A place in a text, with what is to be written there. Offsets count bytes. -/
structure Place where
  start : Nat
  stop : Nat
  replacement : String
deriving DecidableEq, Repr

/-- A rule for mentions. -/
inductive Rule where
  /-- The member, written after its class and an arrow or a double colon. -/
  | qualified (cls member replacement : String)
  /-- The word, unless one of the guards stands directly before it. -/
  | word (word replacement : String) (guards : List String)
  /-- What the pattern matches; the replacement is a template. -/
  | pattern (p : Pattern) (template : String)

/-- A word begins or ends between the text before a place and the text after it. -/
def atEdge (before after : List Char) : Bool :=
  Unicode.atEdge before.head? after.head?

/-- The word stands at the place and does not go on to either side. -/
def wordAt (word before after : List Char) : Bool :=
  match stripStart? word after with
  | some rest => atEdge before after && atEdge (word.reverse ++ before) rest
  | none => false

/-- The places where a word stands, with their byte offsets. -/
def wordPlaces (word text : List Char) : List Nat :=
  (scan (fun before after => if wordAt word before after then some ((), word.length) else none)
    [] 0 text).map Prod.fst

/-- What may stand between a class and its member. -/
def memberMarks : List (List Char) :=
  [['-', '>'], [':', ':']]

/-- A member written after its class at the place: the byte offset of the member from the place,
and the number of characters of the whole. -/
def memberAt? (cls member before after : List Char) : Option (Nat × Nat) :=
  memberMarks.findSome? fun mark =>
    let whole := cls ++ mark ++ member
    if wordAt whole before after then some (width (cls ++ mark), whole.length) else none

/-- The places of a member written after its class, with the byte offsets of the member. -/
def memberPlaces (cls member text : List Char) : List Nat :=
  (scan (memberAt? cls member) [] 0 text).map fun (start, lead) => start + lead

namespace Rule

/-- The text of the pattern that is searched for, when only whole words may match. -/
def boundedText (search : String) : String :=
  "\\b(?:" ++ search ++ ")\\b"

/-- The text of the pattern that a rule searches for. -/
def patternText (search : String) (bounded : Bool) : String :=
  if bounded then boundedText search else search

/-- The rule for what a pattern matches, if the text writes a pattern. -/
def ofPattern? (search template : String) (bounded caseless : Bool) : Option Rule :=
  (Pattern.ofText? (patternText search bounded) caseless).map (Rule.pattern · template)

/-- The places that the rule finds in a text, from the left. -/
def candidates (rule : Rule) (text : List Char) : List Place :=
  match rule with
  | qualified cls member replacement =>
    (memberPlaces cls.toList member.toList text).map fun start =>
      ⟨start, start + member.utf8ByteSize, replacement⟩
  | word w replacement guards =>
    let free := fun start =>
      let before := (upTo text start).reverse
      !guards.any fun g => endsWith before g.toList
    ((wordPlaces w.toList text).filter free).map fun start =>
      ⟨start, start + w.utf8ByteSize, replacement⟩
  | pattern p template =>
    (p.findAll text).map fun m => ⟨m.start, m.stop, Pattern.Template.fill p m template⟩

end Rule

end PhpRename.Mention
