import PhpRename.Doc.Tag
import PhpRename.Facts.Basic
import PhpRename.Php.ClassName

/-!
# Facts about variables

* `globals`: the variables of a `global` statement.
* `assigned`: the object, or something else, that a variable is assigned.
* `hinted`: the type of a parameter or of a caught exception.
* `annotated`: the types that a doc comment gives.
-/

namespace PhpRename.Facts

open Php

/-! ## Global variables -/

/-- The variables of the `global` statement that begins at the site. -/
def globals (s : Site) : List Fact :=
  if s.token.isKeyword "global" then
    let listed := (Site.code s.after).takeWhile fun t => t.kind = .variable || t.isPunct ","
    (listed.filter (·.kind = .variable)).map fun t => .isGlobal s.varScope t.text
  else []

/-! ## Assignments -/

/-- The class of which a new object stands after the equals sign at `assign`, for names as they
are meant at `s`. -/
def created? (s assign : Site) (db : Symbols) : Option String := do
  let first ← assign.nextCode?
  let new ← if first.token.isPunct "&" then first.nextCode? else some first
  if !new.token.isKeyword "new" then none
  else
    let start ← new.nextCode?
    let (name, _) ← start.className?
    s.resolve? db name

/-- The token before a name says that it is not a plain variable. -/
def qualifiesVariable (t : Token) : Bool :=
  t.isMemberAccess || t.isPunct "::" || t.isPunct "$"

/-- What the assignment to the variable at the site says about it. -/
def assigned (s : Site) (db : Symbols) : List Fact :=
  if s.token.kind ≠ .variable || s.token.text = "$this" || s.inClassBody then []
  else if s.prev?.any qualifiesVariable then []
  else
    match s.nextCode? with
    | none => []
    | some assign =>
      if !assign.token.isPunct "=" then []
      else
        match created? s assign db with
        | some cls => [.holds s.varScope s.token.text cls .assignment]
        | none => [.isAssigned s.varScope s.token.text]

/-! ## Type hints -/

/-- The token is a segment of the name of a type. -/
def isTypeName (t : Token) : Bool :=
  match t.kind with
  | .name => true
  | .keyword | .other => isPrimitive t.text || isRelative t.text
  | _ => false

/-- The last segments of the alternatives of a type that ends where the tokens begin, the nearest
one first, with the token in front of the type. The tokens are those before a variable, the
nearest first; `expectName` says that a name may end here. -/
def alternatives (expectName : Bool) : List Token → List String × Option Token
  | [] => ([], none)
  | t :: before =>
    if isTypeName t then
      let (names, front) := alternatives false before
      (if expectName then t.text :: names else names, front)
    else if t.isPunct "|" then alternatives true before
    else if t.isPunct "\\" || t.isPunct "?" then alternatives expectName before
    else ([], some t)

/-- Modifiers in front of the type of a parameter that is a property too. -/
def parameterModifiers : List String :=
  ["public", "protected", "private", "readonly"]

/-- A parameter may begin after the token. -/
def opensParameter (t : Token) : Bool :=
  t.isPunct "(" || t.isPunct "," || parameterModifiers.any t.isKeyword

/-- What the type in front of the variable at the site says about it. -/
def hinted (s : Site) (db : Symbols) : List Fact :=
  if s.token.kind ≠ .variable || s.inClassBody then []
  else
    let marks := fun (t : Token) => t.isPunct "&" || t.isPunct "..."
    let (names, front) := alternatives true ((Site.code s.before).dropWhile marks)
    if names = [] || !front.any opensParameter then []
    else
      match (names.reverse.find? fun n => !isPrimitive n).bind (s.resolve? db) with
      | some cls => [.holds s.varScope s.token.text cls .typeHint]
      | none => []

/-! ## Doc comments -/

/-- The text after the last backslash of a type, without signs in front; `none` for arrays, for
types with arguments, and for types that are not classes. -/
def classOfType? (type : List Char) : Option String :=
  let bare := (type.dropWhile (· = '?')).dropWhile (· = '(')
  if Text.endsWith bare.reverse ['[', ']'] || bare.contains '<' then none
  else
    let name := lastSegment (String.ofList bare)
    if name = "" || isPrimitive name then none else some name

/-- The alternatives of a type. -/
def typeParts : List Char → List (List Char)
  | [] => [[]]
  | c :: cs =>
    if c = '|' then [] :: typeParts cs
    else
      match typeParts cs with
      | [] => [[c]]
      | p :: ps => (c :: p) :: ps

/-- The first class among the alternatives of a type. -/
def firstClass? (type : String) : Option String :=
  (typeParts type.toList).findSome? classOfType?

/-- Words that may stand between a doc comment and the `function` that it is about. -/
def functionModifiers : List String :=
  ["public", "protected", "private", "static", "abstract", "final"]

/-- The site of the `function` after the site `s`, behind `n` modifiers at most. -/
def functionAfter? : Nat → Site → Option Site
  | 0, _ => none
  | n + 1, s =>
    match s.nextCode? with
    | none => none
    | some next =>
      if next.token.isKeyword "function" then some next
      else if functionModifiers.any next.token.isKeyword then functionAfter? n next
      else none

/-- The site of the `function` that a comment at the site is about. -/
def documented? (s : Site) : Option Site :=
  functionAfter? s.after.length s

/-- What one annotation of the comment at the site says. -/
def taggedFacts (s : Site) (db : Symbols) (a : Doc.TypedVar) : List Fact :=
  match (firstClass? a.type).bind (s.resolve? db) with
  | none => []
  | some cls =>
    match a.tag, a.name? with
    | "param", some v =>
      match documented? s with
      | some f => [.holds f.varScope v cls .docComment]
      | none => []
    | "var", some v => if s.inClassBody then [] else [.holds s.varScope v cls .docComment]
    | "var", none =>
      match s.nextCode? with
      | some next =>
        if next.token.kind = .variable then
          [.holds next.varScope next.token.text cls .docComment]
        else []
      | none => []
    | _, _ => []

/-- What the annotations of the doc comment at the site say about variables. -/
def annotated (s : Site) (db : Symbols) : List Fact :=
  if s.token.kind = .docComment then
    (Doc.typedVars s.token.text.toList).flatMap (taggedFacts s db)
  else []

end PhpRename.Facts
