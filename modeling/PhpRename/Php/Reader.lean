import PhpRename.Php.Cut
import PhpRename.Php.Grammar
import PhpRename.Php.Token

/-!
# Reading lexemes as tokens

The reader goes through the lexemes of a file with a list of goals. Each lexeme but the blanks
becomes exactly one token, with the lexeme's own text and place; the goals only decide what kind
of token it is and which scope it stands in. Comments, and text outside the tags, meet no goal.
They stand in the scope that is still open on both sides of them.

* `Reader.settle`: the goals at work until one of them takes a lexeme.
* `Reader.run`: the tokens of a list of lexemes.
-/

namespace PhpRename.Php

/-- What the reader remembers. -/
structure Reader where
  /-- What is still to come, the next first. -/
  goals : List Goal
  /-- Position of the scope that is open. -/
  scope : Nat
  /-- All scopes so far, in the order they were opened. -/
  scopes : List Scope
  /-- Every goal so far has been met. -/
  sound : Bool
deriving Repr

/-- A lexeme that has met a goal. -/
structure Reader.Settled where
  role : Role
  /-- The scope of the lexeme. -/
  scope : Nat
  /-- The scope that was open before any that begins with this lexeme. -/
  outer : Nat
  next : Reader

namespace Reader

/-- The reader at the front of a file, in the one scope that is neither class nor function. -/
def start : Reader :=
  ⟨[.statements], 0, [⟨none, none⟩], true⟩

/-- The scope that an opening makes inside the scope `current`. -/
def scopeOf (opening : Opening) (current : Scope) (offset : Nat) : Scope :=
  match opening with
  | .cls name => ⟨some name, none⟩
  | .function name => ⟨current.cls, some name⟩
  | .closure => ⟨current.cls, some ("\x7bclosure@" ++ toString offset ++ "\x7d")⟩

/-- The role of a lexeme that meets no goal. -/
def strayRole (l : Lexeme) : Role :=
  match l.kind with
  | .word => .name
  | _ => .plain

/-- Lets the goals work until one takes the lexeme `l`, or until the steps run out. `outer` is the
scope that was open before the first one that begins with `l`. -/
def settle (l : Lexeme) (rest : List Lexeme) : Nat → Reader → Option Nat → Settled
  | 0, st, outer => ⟨strayRole l, st.scope, outer.getD st.scope, { st with sound := false }⟩
  | steps + 1, st, outer =>
    match st.goals with
    | [] => ⟨strayRole l, st.scope, outer.getD st.scope, { st with sound := false }⟩
    | .leave n :: goals => settle l rest steps { st with goals, scope := n } outer
    | g :: goals =>
      match g.respondAt l rest with
      | .take role more => ⟨role, st.scope, outer.getD st.scope, { st with goals := more ++ goals }⟩
      | .become more => settle l rest steps { st with goals := more ++ goals } outer
      | .miss => settle l rest steps { st with goals, sound := false } outer
      | .opens opening inner after =>
        let current := st.scopes[st.scope]?.getD ⟨none, none⟩
        settle l rest steps
          { st with
            goals := inner ++ .leave st.scope :: (after ++ goals)
            scope := st.scopes.length
            scopes := st.scopes ++ [scopeOf opening current l.offset] }
          (some (outer.getD st.scope))

/-- Enough steps for any file: each goal on the list may be dropped, and few are put in front. -/
def steps (st : Reader) : Nat :=
  2 * st.goals.length + 64

/-- The lexeme meets the goals. -/
def meet (st : Reader) (l : Lexeme) (rest : List Lexeme) : Settled :=
  settle l rest st.steps st none

/-- The lexeme says nothing to the goals. -/
def isSilent (l : Lexeme) : Bool :=
  match l.kind with
  | .blank | .comment | .markup | .openTag => true
  | _ => false

/-- The end of a file ends what can end, as a closing tag does. -/
def fileEnd : Lexeme :=
  ⟨.closeTag, "", 0, 0⟩

/-- The scope of a lexeme that meets no goal, from the lexemes after it that do. -/
def silentScope (st : Reader) (look : List Lexeme) : Nat :=
  match look with
  | [] => (st.meet fileEnd []).outer
  | l :: rest => (st.meet l rest).outer

/-- The kind of token that a lexeme with this role is, and the grammar's name for it. -/
def classify (l : Lexeme) (role : Role) : Token.Kind × String :=
  match l.kind with
  | .blank => (.other, "")
  | .markup => (.other, "text")
  | .openTag => (.other, "php_tag")
  | .closeTag => (.other, "php_end_tag")
  | .comment =>
    if "/**".toList.isPrefixOf l.text.toList && !"/**/".toList.isPrefixOf l.text.toList then
      (.docComment, "comment")
    else (.comment, "comment")
  | .variable => (.variable, "variable_name")
  | .quoted form => (.string, form)
  | .integer => (.other, "integer")
  | .float => (.other, "float")
  | .mark => (.punct, lowercase l.text)
  | .shellText => (.other, "string_content")
  | .shellEscape => (.other, "escape_sequence")
  | .word =>
    match role with
    | .plain | .name => (.name, "name")
    | .keyword => (.keyword, l.keyword)
    | .boolean => (.other, "boolean")
    | .null => (.other, "null")
    | .primitive => (.other, "primitive_type")
    | .bottom => (.other, "bottom_type")
    | .stringType => (.string, "string")
    | .cast => (.other, "cast_type")
    | .varModifier => (.other, "var_modifier")
    | .operation => (.other, "operation")

/-- The token of a lexeme. -/
def token (l : Lexeme) (role : Role) (scope : Nat) : Token :=
  let (kind, node) := classify l role
  ⟨kind, node, l.text, l.offset, l.line, scope⟩

/-- The tokens of the lexemes, and the reader after them. `look` holds those of the lexemes that
meet goals. -/
def run (st : Reader) (look : List Lexeme) : List Lexeme → List Token × Reader
  | [] => ([], st)
  | l :: rest =>
    if l.kind = .blank then run st look rest
    else if isSilent l then
      let (tokens, last) := run st look rest
      (token l .plain (st.silentScope look) :: tokens, last)
    else
      let met := st.meet l look.tail
      let (tokens, last) := run met.next look.tail rest
      (token l met.role met.scope :: tokens, last)

end Reader

/-- The tokens and the scopes of the content of a PHP file. -/
def tokenize (content : List Char) : List Token × List Scope :=
  let ls := lexemes content
  let (tokens, last) := Reader.start.run (ls.filter fun l => !Reader.isSilent l) ls
  (tokens, last.scopes)

end PhpRename.Php
