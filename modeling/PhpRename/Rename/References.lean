import PhpRename.Edit.Basic
import PhpRename.Php.ClassName
import PhpRename.Symbols.Hierarchy

/-!
# References in code

The places in code at which a class or a method is named, and how sure it is that they are meant.

* `classEdits`: the places at which a class is named. All of them are certain.
* `methodEdits`: the declaration and the calls of a method of one class.
-/

namespace PhpRename.Rename

open Php

/-- The edit that writes `new` in place of the token at the site. -/
def replaceToken (s : Site) (new : String) (c : Confidence) : Edit :=
  ⟨s.path, s.token.offset, s.token.text.utf8ByteSize, new, c, s.token.line⟩

/-! ## Classes -/

/-- Two neighbouring tokens belong to one qualified name. -/
def joins (before after : Token) : Bool :=
  before.isPunct "\\" || (before.kind = .name && after.isPunct "\\")

/-- The token in front of the qualified name that ends with `t`, given the code tokens before it,
the nearest first. -/
def beforeQualified (t : Token) : List Token → Option Token
  | [] => none
  | p :: before => if joins p t then beforeQualified p before else some p

/-- The name after this token is not that of a class: it is a member, or is declared there. -/
def precedesMember (t : Token) : Bool :=
  t.isMemberAccess || t.isPunct "::" || t.isKeyword "function" || t.isKeyword "const" ||
    t.isKeyword "fn"

/-- The edit at the site, if the class `old` is named there. -/
def classEdits (old new : String) (s : Site) : List Edit :=
  if s.token.kind ≠ .name || s.token.text ≠ old then []
  else
    let front := beforeQualified s.token (Site.code s.before)
    if front.any precedesMember then []
    else if s.isCalled && !front.any (·.isKeyword "new") then []
    else [replaceToken s new .certain]

/-! ## Methods -/

/-- How sure it is that a method of `target` is meant, for an object of the class `cls`. It is
certain for that class, doubtful for a class below it, and else it is another method. -/
def ofClass (db : Symbols) (target cls : String) : Option Confidence :=
  if cls = target then some .certain
  else if db.isAncestor cls target then some .ambiguous
  else none

/-- The same for an object whose class may be unknown, which leaves a doubt. -/
def ofReceiver (db : Symbols) (target : String) (cls : Option String) : Option Confidence :=
  match cls with
  | some c => ofClass db target c
  | none => some .ambiguous

/-- The class of the object that the variable `v` holds at the site, if it is known. -/
def variableClass? (db : Symbols) (s : Site) (v : Token) : Option String :=
  if v.text = "$this" then s.cls? else db.typeOf? s.varScope v.text

/-- How sure a call is whose qualifier before the double colon is `q`. -/
def staticCall (db : Symbols) (target : String) (s : Site) (q : Token) : Option Confidence :=
  if q.kind = .name || q.isRelativeClass then ofReceiver db target (s.resolve? db q.text)
  else if q.kind = .variable then ofReceiver db target (variableClass? db s q)
  else some .ambiguous

/-- How sure a call is whose receiver before the arrow stands at the site `r`. -/
def memberCall (db : Symbols) (target : String) (s r : Site) : Option Confidence :=
  let isMember := r.prev?.any fun t => t.isMemberAccess || t.isPunct "::"
  if r.token.kind = .variable && !isMember then
    ofReceiver db target (variableClass? db s r.token)
  else some .ambiguous

/-- How sure it is that the name at the site is that of the method of `target`, for a name that
has the code `front` before it. -/
def methodConfidence (db : Symbols) (target : String) (s front : Site) : Option Confidence :=
  let declarer := if front.token.isPunct "&" then front.prevCode?.getD front else front
  if declarer.token.isKeyword "function" then
    if s.cls? = some target then some .certain else none
  else if declarer.token.isPunct "::" && s.isCalled then
    front.prev?.bind (staticCall db target s)
  else if declarer.token.isMemberAccess && s.isCalled then
    front.prevCode?.bind (memberCall db target s)
  else none

/-- The edit at the site, if the method `old` of the class `target` is named there. -/
def methodEdits (target old new : String) (db : Symbols) (s : Site) : List Edit :=
  if s.token.kind ≠ .name || s.token.text ≠ old then []
  else
    match s.prevCode?.bind (methodConfidence db target s) with
    | some c => [replaceToken s new c]
    | none => []

end PhpRename.Rename
