import PhpRename.Pattern.Bracket

/-!
# Reading patterns

A pattern is read from the left, one element at a time. Groups that are open wait on a stack.

* `Reader.step?`: reads one element.
* `read?`: the expression that a text writes, with its groups.
-/

namespace PhpRename.Pattern

open Unicode (isSpace isAlphabetic isNumeric)

/-- An element of a sequence. -/
structure Item where
  expr : Expr
  /-- How deep the expression is nested. -/
  depth : Nat
  /-- The element can be repeated. -/
  repeatable : Bool

namespace Item

/-- The items one after the other. -/
def sequence (items : List Item) : Item :=
  match items with
  | [] => ⟨.empty, 0, false⟩
  | [i] => i
  | _ =>
    let deepest := items.foldl (fun d i => max d i.depth) 0
    ⟨items.foldr (fun i e => .seq i.expr e) .empty, deepest + 1, true⟩

/-- One of the items, earlier ones first. -/
def choice (items : List Item) : Item :=
  match items with
  | [] => ⟨.empty, 0, false⟩
  | [i] => i
  | first :: rest =>
    let deepest := rest.foldl (fun d i => max d i.depth) first.depth
    ⟨join first.expr rest, deepest + 1, true⟩
where
  join (e : Expr) : List Item → Expr
    | [] => e
    | i :: rest => .alt e (join i.expr rest)

end Item

/-- A group that is open. -/
structure OpenGroup where
  /-- The number under which the group keeps what it matches. -/
  index : Option Nat
  /-- How the text around it is understood. -/
  flags : Flags
  /-- The alternatives before the sequence around it, the last first. -/
  branches : List Item
  /-- The sequence around it so far, the last item first. -/
  items : List Item

/-- A pattern that is being read. -/
structure Reader where
  rest : List Char
  flags : Flags
  /-- The innermost group first. -/
  opened : List OpenGroup
  /-- The alternatives so far, the last first. -/
  branches : List Item
  /-- The sequence so far, the last item first. -/
  items : List Item
  /-- The number of groups that keep what they match. -/
  groups : Nat
  names : List (String × Nat)

/-- A pattern that has been read. -/
structure Reading where
  expr : Expr
  depth : Nat
  groups : Nat
  names : List (String × Nat)

namespace Reader

/-! ## Atoms -/

/-- A class in a pattern of bytes must not hold a byte beyond ASCII, for it would split
characters. -/
def settled? (f : Flags) (s : CharClass) : Option CharClass :=
  if f.unicode then some s
  else if (List.range 0x80).any fun i => s.mem (Char.ofNat (0x80 + i)) then none
  else some (.inter s .ascii)

/-- The characters that a character in a pattern stands for. -/
def literal? (f : Flags) (c : Char) (isByte : Bool) : Option CharClass :=
  if f.unicode then
    some (if f.caseless then .ofChars (Unicode.variants c) else .one c)
  else if isByte && 0x80 ≤ c.toNat then none
  else if f.caseless then some (.ofChars [c, CharClass.swapAscii c])
  else some (.one c)

/-- The expression that an atom stands for. -/
def atomExpr? (f : Flags) (a : Atom) : Option Expr :=
  match a with
  | .literal c isByte => (literal? f c isByte).map .char
  | .set s => (settled? f s).map .char
  | .dot =>
    if !f.unicode then none
    else if f.dotAll then some (.char (.complement .nothing))
    else if f.crlf then some (.char (.complement (.ofChars ['\n', '\r'])))
    else some (.char (.complement (.one '\n')))
  | .look l => some (.look l)

/-- The condition that `^` stands for. -/
def startLook (f : Flags) : Look :=
  if !f.manyLines then .textStart else if f.crlf then .crlfStart else .lineStart

/-- The condition that `$` stands for. -/
def endLook (f : Flags) : Look :=
  if !f.manyLines then .textEnd else if f.crlf then .crlfEnd else .lineEnd

/-- Puts an item at the end of the sequence. -/
def push (r : Reader) (i : Item) (rest : List Char) : Reader :=
  { r with items := i :: r.items, rest }

/-- Puts an expression that is not made of others at the end of the sequence. -/
def pushExpr (r : Reader) (e : Expr) (rest : List Char) : Reader :=
  r.push ⟨e, 0, true⟩ rest

/-! ## Repetitions -/

/-- Repeats the last item. A question mark directly after the sign turns its greed around. -/
def repeat? (r : Reader) (least : Nat) (most : Option Nat) (rest : List Char) : Option Reader :=
  match r.items with
  | [] => none
  | i :: items =>
    if !i.repeatable then none
    else
      let (turned, rest) := match rest with
        | '?' :: rest => (true, rest)
        | _ => (false, rest)
      let greedy := turned == r.flags.swapGreed
      some
        { r with
          items := ⟨.repeated least most greedy i.expr, i.depth + 1, true⟩ :: items
          rest }

/-- The text after blanks around a number. -/
def gap (f : Flags) (cs : List Char) : List Char :=
  f.blanks (cs.dropWhile isSpace)

/-- The digits at the front of the text, and the text after them. At most `n` are read. -/
def decimalDigits (f : Flags) : Nat → List Char → List Char × List Char
  | n + 1, c :: cs =>
    if '0' ≤ c ∧ c ≤ '9' then
      let (digits, rest) := decimalDigits f n (f.blanks cs)
      (c :: digits, rest)
    else ([], c :: cs)
  | _, cs => ([], cs)

/-- A bound of a repetition: the number, when there is one and it is not too large, and the text
after it. -/
def bound (f : Flags) (cs : List Char) : Option Nat × List Char :=
  let cs := cs.dropWhile isSpace
  let (digits, rest) := decimalDigits f cs.length cs
  let n := digits.foldl (fun n c => 10 * n + (c.toNat - '0'.toNat)) 0
  (if digits = [] ∨ 0x100000000 ≤ n then none else some n, gap f rest)

/-- Repeats the last item as often as the braces say that begin before the text. -/
def counted? (r : Reader) (cs : List Char) : Option Reader := do
  let f := r.flags
  let (least, rest) := bound f (f.blanks cs)
  let least ← least
  match rest with
  | '}' :: rest => r.repeat? least (some least) (f.blanks rest)
  | ',' :: rest =>
    match f.blanks rest with
    | '}' :: rest => r.repeat? least none (f.blanks rest)
    | rest =>
      let (most, rest) := bound f rest
      let most ← most
      match rest with
      | '}' :: rest => if most < least then none else r.repeat? least (some most) (f.blanks rest)
      | _ => none
  | _ => none

/-! ## Groups -/

/-- The sequence so far as one item. -/
def sequence (r : Reader) : Item :=
  Item.sequence r.items.reverse

/-- Everything since the innermost group was opened, as one item. -/
def whole (r : Reader) : Item :=
  Item.choice (r.sequence :: r.branches).reverse

/-- Opens a group, in which the text is understood as `inner` says. -/
def enter (r : Reader) (index : Option Nat) (inner : Flags) (rest : List Char) : Reader :=
  { r with
    opened := ⟨index, r.flags, r.branches, r.items⟩ :: r.opened
    branches := []
    items := []
    flags := inner
    rest }

/-- Opens a group that keeps what it matches. -/
def enterNext (r : Reader) (rest : List Char) : Reader :=
  { r.enter (some (r.groups + 1)) r.flags rest with groups := r.groups + 1 }

/-- Closes the innermost group. -/
def close? (r : Reader) (rest : List Char) : Option Reader :=
  match r.opened with
  | [] => none
  | g :: opened =>
    let inner := r.whole
    let expr := match g.index with
      | some n => .group n inner.expr
      | none => inner.expr
    some
      { r with
        opened
        flags := g.flags
        branches := g.branches
        items := ⟨expr, inner.depth + 1, true⟩ :: g.items
        rest }

/-- A character that may stand in the name of a group. -/
def isNameChar (isFirst : Bool) (c : Char) : Bool :=
  c = '_' || isAlphabetic c.toNat ||
    (!isFirst && (c = '.' || c = '[' || c = ']' || isNumeric c.toNat))

/-- Opens a group with a name. -/
def enterNamed? (r : Reader) (cs : List Char) : Option Reader :=
  let name := cs.takeWhile (· ≠ '>')
  let text := String.ofList name
  match name, cs.drop name.length with
  | first :: more, _ :: rest =>
    if isNameChar true first && more.all (isNameChar false) && !r.names.any (·.1 = text) then
      some { r.enterNext rest with names := r.names ++ [(text, r.groups + 1)] }
    else none
  | _, _ => none

/-- Sets the flag of a letter. -/
def setFlag? (value : Bool) (letter : Char) (f : Flags) : Option Flags :=
  match letter with
  | 'i' => some { f with caseless := value }
  | 'm' => some { f with manyLines := value }
  | 's' => some { f with dotAll := value }
  | 'U' => some { f with swapGreed := value }
  | 'u' => some { f with unicode := value }
  | 'R' => some { f with crlf := value }
  | 'x' => some { f with verbose := value }
  | _ => none

/-- The flags that letters set, those after a dash being turned off. `seen` holds the letters
before; none may come twice, and the dash neither twice nor last. -/
def setFlags? (value : Bool) (seen : List Char) (f : Flags) : List Char → Option Flags
  | [] => if seen.head? = some '-' then none else some f
  | c :: cs =>
    if seen.contains c then none
    else if c = '-' then setFlags? false (c :: seen) f cs
    else do setFlags? value (c :: seen) (← setFlag? value c f) cs

/-- Opens a group after `(?`, or sets flags for the rest of the group. -/
def flagged? (r : Reader) (cs : List Char) : Option Reader := do
  let letters := cs.takeWhile fun c => c ≠ ':' && c ≠ ')'
  let f ← setFlags? true [] r.flags letters
  match cs.drop letters.length with
  | ':' :: rest => return r.enter none f rest
  | ')' :: rest =>
    if letters = [] then none else return { r.push ⟨.empty, 0, false⟩ rest with flags := f }
  | _ => none

/-- Reads what follows an opening parenthesis. -/
def group? (r : Reader) (cs : List Char) : Option Reader :=
  match r.flags.blanks cs with
  | '?' :: 'P' :: '<' :: rest => r.enterNamed? rest
  | '?' :: '<' :: '=' :: _ => none
  | '?' :: '<' :: '!' :: _ => none
  | '?' :: '<' :: rest => r.enterNamed? rest
  | '?' :: rest => r.flagged? rest
  | rest => some (r.enterNext rest)

/-! ## Elements -/

/-- Reads the element that begins with `c`. -/
def step? (r : Reader) (c : Char) (cs : List Char) : Option Reader :=
  match c with
  | '(' => r.group? cs
  | ')' => r.close? cs
  | '|' => some { r with branches := r.sequence :: r.branches, items := [], rest := cs }
  | '[' => do
    let (part, rest) ← bracket? r.flags cs
    let s ← settled? r.flags part.cls
    return r.push ⟨.char s, part.depth, true⟩ rest
  | '?' => r.repeat? 0 (some 1) cs
  | '*' => r.repeat? 0 none cs
  | '+' => r.repeat? 1 none cs
  | '\\' => do
    let (a, rest) ← escape? r.flags cs
    let e ← atomExpr? r.flags a
    return r.pushExpr e rest
  | '.' => (atomExpr? r.flags .dot).map (r.pushExpr · cs)
  | '^' => some (r.pushExpr (.look (startLook r.flags)) cs)
  | '$' => some (r.pushExpr (.look (endLook r.flags)) cs)
  | _ =>
    if c = '{' then r.counted? cs
    else (atomExpr? r.flags (.literal c false)).map (r.pushExpr · cs)

/-- Reads the elements of the text, `n` of them at most. -/
def run : Nat → Reader → Option Reader
  | 0, r => some r
  | n + 1, r =>
    match r.flags.blanks r.rest with
    | [] => some r
    | c :: cs => (r.step? c cs).bind (run n)

end Reader

/-- How deep a pattern may be nested. -/
def depthLimit : Nat :=
  250

/-- What the text writes, with the flags in force at its front. -/
def read? (f : Flags) (text : List Char) : Option Reading := do
  let r ← Reader.run text.length ⟨text, f, [], [], [], 0, []⟩
  if !r.opened.isEmpty then none
  else
    let whole := r.whole
    if depthLimit < whole.depth || Expr.weightLimit < whole.expr.weight then none
    else return ⟨whole.expr, whole.depth, r.groups, r.names⟩

end PhpRename.Pattern
