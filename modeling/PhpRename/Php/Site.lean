import PhpRename.Php.Source
import PhpRename.Symbols.Scope

/-!
# Places in a source file

A *site* is a place in the token list of a source file: the token there, with those before and
after it. What a token means is read off its neighbours; *code* neighbours leave comments out.

* `Site.all`: the sites of a file, in order.
* `Site.prevCode?`, `Site.nextCode?`: the nearest site on either side that is not a comment.
* `Site.cls?`, `Site.varScope`: the class and the scope of variables around a site.
-/

namespace PhpRename.Php

/-- A place in the token list of a source file. -/
structure Site where
  source : Source
  /-- The tokens before it, the nearest one first. -/
  before : List Token
  token : Token
  /-- The tokens after it, the nearest one first. -/
  after : List Token

namespace Site

/-- The sites from a given one on, for the tokens that are still to come. -/
def sitesFrom (source : Source) (before : List Token) : List Token → List Site
  | [] => []
  | t :: after => ⟨source, before, t, after⟩ :: sitesFrom source (t :: before) after

/-- The sites of a file, in order. -/
def all (source : Source) : List Site :=
  sitesFrom source [] source.tokens

/-- The position of the site's token in the file. -/
def index (s : Site) : Nat :=
  s.before.length

/-! ## Neighbours -/

/-- The nearest code among the tokens before a site. -/
def codeBefore (source : Source) (after : List Token) : List Token → Option Site
  | [] => none
  | t :: before =>
    if t.isComment then codeBefore source (t :: after) before
    else some ⟨source, before, t, after⟩

/-- The nearest code among the tokens after a site. -/
def codeAfter (source : Source) (before : List Token) : List Token → Option Site
  | [] => none
  | t :: after =>
    if t.isComment then codeAfter source (t :: before) after
    else some ⟨source, before, t, after⟩

/-- The nearest code before the site. -/
def prevCode? (s : Site) : Option Site :=
  codeBefore s.source (s.token :: s.after) s.before

/-- The nearest code after the site. -/
def nextCode? (s : Site) : Option Site :=
  codeAfter s.source (s.token :: s.before) s.after

/-- The nearest code token before the site. -/
def prev? (s : Site) : Option Token :=
  s.prevCode?.map (·.token)

/-- The nearest code token after the site. -/
def next? (s : Site) : Option Token :=
  s.nextCode?.map (·.token)

/-- The code tokens before the site, the nearest one first. -/
def code (tokens : List Token) : List Token :=
  tokens.filter fun t => !t.isComment

/-- The site `n` tokens further on, or the last one. -/
def advance : Nat → Site → Site
  | 0, s => s
  | n + 1, s =>
    match s.after with
    | [] => s
    | t :: after => advance n ⟨s.source, s.token :: s.before, t, after⟩

/-! ## Surroundings -/

def path (s : Site) : Path :=
  s.source.path

/-- The scope of the site's token. -/
def scope (s : Site) : Scope :=
  s.source.scopeOf s.token

/-- The class around the site. -/
def cls? (s : Site) : Option String :=
  s.scope.cls

/-- The site stands in the body of a class, outside its methods. -/
def inClassBody (s : Site) : Bool :=
  s.scope.cls.isSome && s.scope.function.isNone

/-- The scope that variables live in at the site. -/
def varScope (s : Site) : VarScope :=
  match s.scope.function with
  | some f => .function s.path s.scope.cls f
  | none => .global

/-- The next token is an opening parenthesis. -/
def isCalled (s : Site) : Bool :=
  s.next?.any (·.isPunct "(")

end Site

end PhpRename.Php
