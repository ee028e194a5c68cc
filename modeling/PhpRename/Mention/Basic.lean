import PhpRename.Mention.Rule

/-!
# Mentions in a text

Rules are applied in their order. A rule claims the places that it finds; later rules leave them
alone. So a member written after its class is found once, by the rule for that, and not a second
time as a bare word.

* `Mention.find`: the mentions in a text, in text order.
-/

namespace PhpRename.Mention

/-- The two places have bytes in common. -/
def Place.meets (p q : Place) : Bool :=
  p.start < q.stop && q.start < p.stop

/-- The text of the place already is what would be written there. -/
def Place.isIdle (text : List Char) (p : Place) : Bool :=
  Text.slice text p.start p.stop = p.replacement.toList

/-- Claims a place, unless it meets one that is claimed or nothing would change there. -/
def claim (text : List Char) (claimed : List Place) (p : Place) : List Place :=
  if claimed.any p.meets || p.isIdle text then claimed else claimed ++ [p]

/-- The places that the rules claim in a text, in the order of the claims. -/
def claims (rules : List Rule) (text : List Char) : List Place :=
  rules.foldl (fun claimed rule => (rule.candidates text).foldl (claim text) claimed) []

/-- The mentions in a text, in text order. -/
def find (rules : List Rule) (text : List Char) : List Place :=
  (claims rules text).mergeSort fun p q => p.start ≤ q.start

/-- The rules for a class that is renamed: its bare name. -/
def ofClass (old new : String) : List Rule :=
  [.word old new []]

/-- The rules for a method that is renamed: the method after its class, and its bare name where it
is neither a member of something else nor a variable. -/
def ofMethod (cls old new : String) : List Rule :=
  [.qualified cls old new, .word old new ["->", "::", "$"]]

end PhpRename.Mention
