import PhpRename.Php.Lexeme

/-!
# The grammar of PHP, as goals

What a word means depends on where it stands: `list` is a keyword before a parenthesis and a
name after an arrow. The grammar is given by *goals*, things still to be read. A goal looks at
the lexemes to come and either takes the next one, giving it a role, or becomes other goals.
A list of goals, the first one to be met first, is all that a reader has to remember.

* `Goal`: what may be still to come.
* `Goal.respond`: what a goal does with the lexemes to come.
-/

namespace PhpRename.Php

/-- The part that a word plays where it stands; `plain` is everything that is not a word. -/
inductive Role where
  | plain
  | name
  | keyword
  | boolean
  | null
  /-- A built-in type. -/
  | primitive
  /-- The type of a function that does not return. -/
  | bottom
  /-- The built-in type `string`, which the grammar takes for a string. -/
  | stringType
  | cast
  | varModifier
  /-- The `set` that limits a visibility to writing. -/
  | operation
deriving DecidableEq, Repr, Inhabited

/-- A part of a program that is a scope of its own. -/
inductive Opening where
  | cls (name : String)
  | function (name : String)
  /-- A function without a name, which is named after the offset where it begins. -/
  | closure
deriving DecidableEq, Repr

/-- Something still to be read. -/
inductive Goal where
  /-- Exactly this mark. -/
  | mark (m : String)
  /-- This mark, if it comes next. -/
  | optMark (m : String)
  /-- Exactly this keyword. -/
  | word (w : String)
  /-- This keyword, if it comes next. -/
  | optWord (w : String)
  /-- Any word, in this role. -/
  | anyWord (role : Role)
  /-- A variable, if one comes next. -/
  | optVariable
  /-- The end of a statement. -/
  | semicolon
  | statements
  | statement
  /-- Expressions between commas. -/
  | exprs
  | moreExprs
  | expr
  /-- What may follow an operand. -/
  | tail
  /-- What follows a `$` that begins no name. -/
  | dollar
  /-- What follows an arrow or a double colon. -/
  | member
  | arguments
  | moreArguments
  | optArguments
  /-- The elements of an array. -/
  | items
  | moreItems
  /-- What follows `new`. -/
  | created
  /-- What follows `instanceof`. -/
  | classOperand
  /-- The value after the key of a `yield` or a `foreach`. -/
  | optArrow
  /-- The arms of a `match`. -/
  | arms
  /-- What stands between backticks. -/
  | shell
  | shellIndex
  /-- A name, maybe with a namespace. -/
  | qualified
  | optQualified
  /-- The further parts of a name with a namespace. -/
  | segments
  /-- A type; in the place of a return type or not. -/
  | type (ofReturn : Bool)
  | moreType (ofReturn : Bool)
  | returnType
  | parameters
  | moreParameters
  | parameterMarks
  /-- A default or a value after an equals sign. -/
  | optValue
  | attributes
  | attributeNames
  | modifiers
  /-- The captured variables of a closure. -/
  | captures
  | block
  /-- The body of a function, or its absence. -/
  | body
  /-- The word that says what a class declaration declares. -/
  | classWord
  /-- The type behind the cases of an enumeration. -/
  | optBacking
  /-- The `extends` and `implements` clauses. -/
  | heritage
  | classNames
  | moreClassNames
  | memberBlock
  | members
  /-- A member of a class after its modifiers, unless it is a method. -/
  | memberCore
  | properties
  | moreProperties
  | constants
  | constant
  | moreConstants
  /-- What follows the names of used traits. -/
  | traitRules
  | traitRuleList
  | traitAlias
  | optName
  /-- The hooks of a property. -/
  | optHooks
  | hooks
  | optParameters
  | hookBody
  | forHeader
  | directive
  /-- The clauses of a namespace import. -/
  | imports
  | importPath
  | importRest
  | moreImports
  /-- The scope to go back to. -/
  | leave (scope : Nat)
deriving DecidableEq, Repr, Inhabited

/-- What a goal does. -/
inductive Response where
  /-- Takes the next lexeme; then these goals are to be met. -/
  | take (role : Role) (goals : List Goal)
  /-- Stands for these goals. -/
  | become (goals : List Goal)
  /-- Stands for the goals `inner` within a scope of its own, and then for `after`. -/
  | opens (opening : Opening) (inner after : List Goal)
  /-- The goal cannot be met. -/
  | miss

namespace Goal

/-- The mark that opens a block. -/
def openBrace : String := "\x7b"

/-- The mark that closes a block. -/
def closeBrace : String := "\x7d"

/-- The next lexeme is the mark `m`. -/
def atMark (look : List Lexeme) (m : String) : Bool :=
  look.head?.any (·.isMark m)

/-- The next lexeme is the word `w`. -/
def atWord (look : List Lexeme) (w : String) : Bool :=
  look.head?.any (·.isWord w)

/-- The next lexeme is a word. -/
def atAnyWord (look : List Lexeme) : Bool :=
  look.head?.any (·.kind = .word)

/-- The next lexeme may begin a name with a namespace. -/
def atName (look : List Lexeme) : Bool :=
  atAnyWord look || atMark look "\\"

/-- What is left after the attributes at the front, with `depth` brackets open. -/
def afterAttributes (depth : Nat) : List Lexeme → List Lexeme
  | [] => []
  | l :: rest =>
    match depth with
    | 0 => if l.isMark "#[" then afterAttributes 1 rest else l :: rest
    | d + 1 =>
      if l.isMark "[" || l.isMark "#[" then afterAttributes (d + 2) rest
      else if l.isMark "]" then afterAttributes d rest
      else afterAttributes (d + 1) rest

/-- Words that may stand before the keyword of a declaration. -/
def modifierWords : List String :=
  ["public", "protected", "private", "static", "abstract", "final", "readonly", "var"]

/-- What is left after the modifiers at the front. -/
def afterModifiers : List Lexeme → List Lexeme
  | [] => []
  | l :: rest => if modifierWords.contains l.keyword then afterModifiers rest else l :: rest

/-- The name that a function declaration gives, for lexemes that begin after `function`. -/
def functionName? (look : List Lexeme) : Option String :=
  match look with
  | l :: rest =>
    if l.kind = .word then some l.text
    else if l.isMark "&" then
      match rest with
      | n :: _ => if n.kind = .word then some n.text else none
      | [] => none
    else none
  | [] => none

/-- Marks that stand between two operands. -/
def binaryMarks : List String :=
  ["+", "-", "*", "/", "%", "**", ".", "<<", ">>", "<", ">", "<=", ">=", "==", "===", "!=", "!==",
   "<>", "<=>", "&", "|", "^", "&&", "||", "??", "|>", "=", "+=", "-=", "*=", "/=", ".=", "%=",
   "**=", "??=", "&=", "|=", "^=", "<<=", ">>="]

/-- Marks that stand before an operand. -/
def prefixMarks : List String :=
  ["!", "~", "-", "+", "@", "&", "++", "--", "..."]

/-- Marks that end an operand before it has begun. -/
def closingMarks : List String :=
  [")", "]", closeBrace, ";", ",", ":", "=>"]

/-- Words that stand before an operand. -/
def prefixWords : List String :=
  ["clone", "print", "include", "include_once", "require", "require_once", "throw"]

/-- Words that name a type to which a value is converted. -/
def castWords : List String :=
  ["array", "binary", "bool", "boolean", "double", "int", "integer", "float", "object", "string",
   "unset"]

/-- The role of a word in the place of a type. Some built-in types are known only in small
letters. -/
def typeRole (ofReturn : Bool) (l : Lexeme) : Role :=
  if ["array", "bool", "float", "int", "object", "null"].contains l.text then .keyword
  else if l.text = "string" then .stringType
  else if ["callable", "false", "iterable", "mixed", "true", "void"].contains l.keyword then
    .primitive
  else if ofReturn && l.text = "never" then .bottom
  else .name

/-- The goals of a function with a name. -/
def functionParts : List Goal :=
  [attributes, modifiers, word "function", optMark "&", anyWord .name, mark "(", parameters,
   mark ")", returnType, body]

/-- The goals of a function without a name. -/
def closureParts : List Goal :=
  [attributes, optWord "static", word "function", optMark "&", mark "(", parameters, mark ")",
   captures, returnType, block]

/-- The goals of an arrow function. -/
def arrowParts : List Goal :=
  [attributes, optWord "static", word "fn", optMark "&", mark "(", parameters, mark ")",
   returnType, mark "=>", expr]

/-- The goals of a class, interface, trait or enumeration. -/
def classParts : List Goal :=
  [attributes, modifiers, classWord, anyWord .name, optBacking, heritage, memberBlock]

/-- A statement that begins with attributes, modifiers or the keyword of a declaration. -/
def declaration (look : List Lexeme) : Response :=
  match afterModifiers (afterAttributes 0 look) with
  | l :: rest =>
    if ["class", "interface", "trait", "enum"].contains l.keyword then
      match rest with
      | n :: _ =>
        if n.kind = .word then .opens (.cls n.text) classParts [] else .become [exprs, semicolon]
      | [] => .become [exprs, semicolon]
    else if l.isWord "function" then
      match functionName? rest with
      | some n => .opens (.function n) functionParts []
      | none => .become [exprs, semicolon]
    else .become [exprs, semicolon]
  | [] => .become [exprs, semicolon]

/-- A statement that begins with the word `l`. -/
def wordStatement (l : Lexeme) (rest : List Lexeme) : Response :=
  match l.keyword with
  | "if" | "elseif" | "while" | "switch" => .take .keyword [mark "(", exprs, mark ")"]
  | "for" => .take .keyword [mark "(", forHeader, mark ")"]
  | "foreach" => .take .keyword [mark "(", expr, word "as", expr, optArrow, mark ")"]
  | "declare" => .take .keyword [mark "(", directive, mark ")"]
  | "do" | "else" | "try" | "finally" => .take .keyword []
  | "endif" | "endwhile" | "endfor" | "endforeach" | "endswitch" | "enddeclare" =>
    .take .keyword []
  | "catch" => .take .keyword [mark "(", type false, optVariable, mark ")"]
  | "case" => .take .keyword [expr]
  | "default" => .take .keyword []
  | "return" | "break" | "continue" | "echo" | "exit" | "global" => .take .keyword [exprs, semicolon]
  | "unset" =>
    if l.text = "unset" then .take .keyword [exprs, semicolon] else .become [exprs, semicolon]
  | "goto" => .take .keyword [anyWord .name, semicolon]
  | "const" => .take .keyword [constants, semicolon]
  | "function" | "abstract" | "final" | "readonly" | "class" | "interface" | "trait" | "enum" =>
    declaration (l :: rest)
  | "namespace" =>
    if atMark rest "\\" then .become [exprs, semicolon]
    else .take .keyword [optQualified, optMark ";"]
  | "use" => .take .keyword [imports, semicolon]
  | "static" =>
    if rest.head?.any (·.kind = .variable) then .take .keyword [exprs, semicolon]
    else .become [exprs, semicolon]
  | _ => if atMark rest ":" then .take .name [mark ":"] else .become [exprs, semicolon]

/-- A function without a name that begins here, maybe with attributes and `static`. -/
def anonymous? (look : List Lexeme) : Option Response :=
  let after := afterAttributes 0 look
  let after := if atWord after "static" then after.drop 1 else after
  if atWord after "fn" then some (.opens .closure arrowParts [])
  else if atWord after "function" then some (.opens .closure closureParts [tail])
  else none

/-- An operand that begins with the word `l`. -/
def wordOperand (l : Lexeme) (rest : List Lexeme) : Response :=
  if prefixWords.contains l.keyword then .take .keyword [expr]
  else if l.isWord "new" then .take .keyword [created]
  else if l.isWord "yield" then .take .keyword [expr, optArrow]
  else if atMark rest "\\" then
    .take (if l.isWord "namespace" then .keyword else .name) [segments, tail]
  else
    match l.keyword with
    | "true" | "false" => .take .boolean [tail]
    | "null" => .take .null [tail]
    | "match" =>
      .take .keyword [mark "(", exprs, mark ")", mark openBrace, arms, mark closeBrace, tail]
    | "list" | "array" =>
      if atMark rest "(" then .take .keyword [mark "(", items, mark ")", tail]
      else .take .name [tail]
    | "static" | "self" | "parent" => .take .keyword [tail]
    | _ => .take .name [tail]

/-- An operand that begins with the mark `m`. -/
def markOperand (m : String) (rest : List Lexeme) : Response :=
  if closingMarks.contains m then .become []
  else if prefixMarks.contains m || lowercase m = "yield from" then .take .plain [expr]
  else
    match m with
    | "(" =>
      match rest with
      | w :: close :: _ =>
        if castWords.contains w.keyword && close.isMark ")" then
          .take .plain [anyWord .cast, mark ")", expr]
        else .take .plain [exprs, mark ")", tail]
      | _ => .take .plain [exprs, mark ")", tail]
    | "[" => .take .plain [items, mark "]", tail]
    | "$" => .take .plain [dollar, tail]
    | "\\" => .take .plain [anyWord .name, segments, tail]
    | "\x60" => .take .plain [shell, mark "\x60", tail]
    | "#[" => .become [attributes, expr]
    | _ => .miss

/-- What follows an operand, where a word comes next. -/
def wordTail (w : String) : Response :=
  match w with
  | "and" | "or" | "xor" => .take .keyword [expr]
  | "instanceof" => .take .keyword [classOperand, tail]
  | _ => .become []

/-- What follows an operand, where a mark comes next. -/
def markTail (m : String) : Response :=
  if binaryMarks.contains m then .take .plain [expr]
  else
    match m with
    | "++" | "--" => .take .plain [tail]
    | "->" | "?->" | "::" => .take .plain [member, tail]
    | "(" => .take .plain [arguments, mark ")", tail]
    | "[" => .take .plain [exprs, mark "]", tail]
    | "?" => .take .plain [expr, mark ":", expr]
    | _ => .become []

/-- The expression at the front of the lexemes to come. -/
def operand (l : Lexeme) (rest : List Lexeme) : Response :=
  match anonymous? (l :: rest) with
  | some r => r
  | none =>
    match l.kind with
    | .word => wordOperand l rest
    | .mark => markOperand l.text rest
    | .closeTag => .become []
    | _ => .take .plain [tail]

/-- What the goal does when the next lexeme is `l`, with `rest` after it. -/
def respondAt (g : Goal) (l : Lexeme) (rest : List Lexeme) : Response :=
  let look := l :: rest
  let at_ := atMark look
  match g with
  | leave _ => .become []
  | mark m => if at_ m then .take .plain [] else .miss
  | optMark m => if at_ m then .take .plain [] else .become []
  | word w => if l.isWord w then .take .keyword [] else .miss
  | optWord w => if l.isWord w then .take .keyword [] else .become []
  | anyWord role => if l.kind = .word then .take role [] else .miss
  | optName => if l.kind = .word then .take .name [] else .become []
  | optVariable => if l.kind = .variable then .take .plain [] else .become []
  | semicolon => if at_ ";" || l.kind = .closeTag then .take .plain [] else .miss
  | statements => if at_ closeBrace then .become [] else .become [statement, statements]
  | statement =>
    match l.kind with
    | .closeTag => .take .plain []
    | .word => wordStatement l rest
    | .mark =>
      if at_ openBrace then .take .plain [statements, mark closeBrace]
      else if at_ ";" || at_ ":" then .take .plain []
      else if at_ "#[" then declaration look
      else .become [exprs, semicolon]
    | _ => .become [exprs, semicolon]
  | exprs => .become [expr, moreExprs]
  | moreExprs => if at_ "," then .take .plain [expr, moreExprs] else .become []
  | expr => operand l rest
  | tail =>
    match l.kind with
    | .word => wordTail l.keyword
    | .mark => markTail l.text
    | _ => .become []
  | dollar =>
    if at_ "$" then .take .plain [dollar]
    else if at_ openBrace then .take .plain [expr, mark closeBrace]
    else if l.kind = .variable then .take .plain []
    else .miss
  | member =>
    if l.kind = .word then .take .name []
    else if l.kind = .variable then .take .plain []
    else if at_ "$" then .take .plain [dollar]
    else if at_ openBrace then .take .plain [expr, mark closeBrace]
    else .miss
  | arguments =>
    if at_ ")" then .become []
    else if l.kind = .word && atMark rest ":" then
      .take .name [mark ":", expr, moreArguments]
    else .become [expr, moreArguments]
  | moreArguments => if at_ "," then .take .plain [arguments] else .become []
  | optArguments => if at_ "(" then .take .plain [arguments, mark ")"] else .become []
  | items =>
    if at_ "]" || at_ ")" then .become []
    else if at_ "," then .take .plain [items]
    else .become [expr, moreItems]
  | moreItems =>
    if at_ "=>" then .take .plain [expr, moreItems]
    else if at_ "," then .take .plain [items]
    else .become []
  | created =>
    if at_ "#[" then .become [attributes, created]
    else if l.isWord "class" then .take .keyword [optArguments, heritage, memberBlock, tail]
    else if l.isWord "readonly" && atWord rest "class" then .take .keyword [created]
    else if atName look then .become [qualified, tail]
    else .become [classOperand, tail]
  | classOperand =>
    if atName look then .become [qualified]
    else if l.kind = .variable then .take .plain []
    else if at_ "$" then .take .plain [dollar]
    else if at_ "(" then .take .plain [exprs, mark ")"]
    else .miss
  | optArrow => if at_ "=>" then .take .plain [expr] else .become []
  | arms =>
    if at_ closeBrace then .become []
    else if at_ "," then .take .plain [arms]
    else if at_ "=>" then .take .plain [expr, arms]
    else if l.isWord "default" && (atMark rest "=>" || atMark rest ",") then .take .keyword [arms]
    else if l.kind = .mark && closingMarks.contains l.text then .miss
    else .become [expr, arms]
  | shell =>
    if at_ "\x60" then .become []
    else if at_ "[" then .take .plain [shellIndex, mark "]", shell]
    else if at_ "->" || at_ "?->" then .take .plain [member, shell]
    else if at_ openBrace then .take .plain [expr, mark closeBrace, shell]
    else if at_ "$" then .take .plain [dollar, shell]
    else .take .plain [shell]
  | shellIndex =>
    if at_ "]" then .become []
    else .take (if l.kind = .word then .name else .plain) [shellIndex]
  | qualified =>
    if at_ "\\" then .take .plain [anyWord .name, segments]
    else if l.isWord "namespace" && atMark rest "\\" then .take .keyword [segments]
    else if l.kind = .word then .take .name [segments]
    else .miss
  | optQualified => if atName look then .become [qualified] else .become []
  | segments => if at_ "\\" then .take .plain [anyWord .name, segments] else .become []
  | type r =>
    if at_ "?" then .take .plain [type r]
    else if at_ "(" then .take .plain [type r, mark ")", moreType r]
    else if at_ "\\" || l.kind = .word && atMark rest "\\" then .become [qualified, moreType r]
    else if l.kind = .word then .take (typeRole r l) [moreType r]
    else .become []
  | moreType r =>
    if at_ "|" then .take .plain [type r]
    else if at_ "&" && (atName rest || atMark rest "(") then .take .plain [type r]
    else .become []
  | returnType => if at_ ":" then .take .plain [type true] else .become []
  | parameters =>
    if at_ ")" then .become []
    else
      .become [attributes, modifiers, type false, parameterMarks, optVariable, optValue, optHooks,
        moreParameters]
  | moreParameters => if at_ "," then .take .plain [parameters] else .become []
  | parameterMarks =>
    if at_ "&" || at_ "..." then .take .plain [parameterMarks] else .become []
  | optValue => if at_ "=" then .take .plain [expr] else .become []
  | attributes =>
    if at_ "#[" then .take .plain [attributeNames, mark "]", attributes] else .become []
  | attributeNames =>
    if at_ "]" then .become []
    else if at_ "," then .take .plain [attributeNames]
    else if atName look then .become [qualified, optArguments, attributeNames]
    else .miss
  | modifiers =>
    if l.isWord "var" then .take .varModifier [modifiers]
    else if modifierWords.contains l.keyword then
      if atMark rest "(" && atWord (rest.drop 1) "set" && atMark (rest.drop 2) ")" then
        .take .keyword [mark "(", anyWord .operation, mark ")", modifiers]
      else .take .keyword [modifiers]
    else .become []
  | captures => if l.isWord "use" then .take .keyword [mark "(", exprs, mark ")"] else .become []
  | block => if at_ openBrace then .take .plain [statements, mark closeBrace] else .miss
  | body =>
    if at_ openBrace then .take .plain [statements, mark closeBrace]
    else if at_ ";" then .take .plain []
    else .miss
  | classWord =>
    if ["class", "interface", "trait", "enum"].contains l.keyword then .take .keyword [] else .miss
  | optBacking => if at_ ":" then .take .plain [anyWord .primitive] else .become []
  | heritage =>
    if l.isWord "extends" || l.isWord "implements" then .take .keyword [classNames, heritage]
    else .become []
  | classNames => .become [qualified, moreClassNames]
  | moreClassNames => if at_ "," then .take .plain [qualified, moreClassNames] else .become []
  | memberBlock => if at_ openBrace then .take .plain [members, mark closeBrace] else .miss
  | members =>
    if at_ closeBrace then .become []
    else if l.kind = .closeTag then .take .plain [members]
    else
      match afterModifiers (afterAttributes 0 look) with
      | f :: more =>
        if f.isWord "function" then
          match functionName? more with
          | some n => .opens (.function n) functionParts [members]
          | none => .miss
        else .become [attributes, modifiers, memberCore, members]
      | [] => .miss
  | memberCore =>
    match l.keyword with
    | "const" => .take .keyword [constants, semicolon]
    | "case" => .take .keyword [anyWord .name, optValue, semicolon]
    | "use" => .take .keyword [classNames, traitRules]
    | _ => .become [type false, properties]
  | properties =>
    if l.kind = .variable then .take .plain [optValue, optHooks, moreProperties] else .miss
  | moreProperties => if at_ "," then .take .plain [properties] else .become [optMark ";"]
  | constants =>
    if l.kind = .word && atMark rest "=" then .become [constant]
    else .become [type false, constant]
  | constant =>
    if l.kind = .word then .take .name [mark "=", expr, moreConstants] else .miss
  | moreConstants => if at_ "," then .take .plain [constant] else .become []
  | traitRules =>
    if at_ openBrace then .take .plain [traitRuleList, mark closeBrace] else .become [semicolon]
  | traitRuleList =>
    if at_ closeBrace then .become []
    else if at_ ";" || at_ "," then .take .plain [traitRuleList]
    else if at_ "::" then .take .plain [anyWord .name, traitRuleList]
    else if l.isWord "insteadof" then .take .keyword [classNames, traitRuleList]
    else if l.isWord "as" then .take .keyword [traitAlias, traitRuleList]
    else .become [qualified, traitRuleList]
  | traitAlias =>
    if ["public", "protected", "private"].contains l.keyword then .take .keyword [optName]
    else .become [anyWord .name]
  | optHooks => if at_ openBrace then .take .plain [hooks, mark closeBrace] else .become []
  | hooks =>
    if at_ closeBrace then .become []
    else
      .become [attributes, modifiers, optMark "&", anyWord .name, optParameters, hookBody, hooks]
  | optParameters => if at_ "(" then .take .plain [parameters, mark ")"] else .become []
  | hookBody => if at_ "=>" then .take .plain [expr, semicolon] else .become [body]
  | forHeader =>
    if at_ ")" then .become []
    else if at_ ";" || at_ "," then .take .plain [forHeader]
    else .become [expr, forHeader]
  | directive =>
    if l.kind = .word then .take .keyword [mark "=", expr] else .miss
  | imports =>
    if at_ closeBrace || at_ ";" then .become []
    else if (l.isWord "function" || l.isWord "const") && atName rest then
      .take .keyword [importPath]
    else .become [importPath]
  | importPath =>
    if at_ "\\" then .take .plain [importPath]
    else if at_ openBrace then .take .plain [imports, mark closeBrace, moreImports]
    else if l.kind = .word then .take .name [importRest]
    else .miss
  | importRest =>
    if at_ "\\" then .take .plain [importPath]
    else if l.isWord "as" then .take .keyword [anyWord .name, moreImports]
    else .become [moreImports]
  | moreImports => if at_ "," then .take .plain [imports] else .become []

end Goal

end PhpRename.Php
