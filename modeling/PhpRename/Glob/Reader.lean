import PhpRename.Glob.Glyph

/-!
# Reading globs

Outside of groups a comma stands for itself. Two asterisks stand for whole directories where
they fill the place between slashes, or the end or the beginning of the glob or of a branch;
elsewhere they are two asterisks.

* `Glob.read`: the glob that a text writes.
-/

namespace PhpRename.Glob

/-- A group of branches that is still open. -/
structure Group where
  /-- The items before the group, the last one first. -/
  before : List Item
  /-- The branches that are complete, the last one first. -/
  branches : List (List Item)

/-- What has been read of a glob. -/
structure Reader where
  /-- The last glyph read. -/
  last? : Option Glyph
  /-- The open groups, the innermost one first. -/
  groups : List Group
  /-- The items of the innermost open group's last branch, or of the whole glob, the last one
  first. -/
  items : List Item

namespace Reader

/-- Nothing has been read. -/
def start : Reader :=
  ⟨none, [], []⟩

/-- The reader after a glyph that stands for an item. -/
def push (r : Reader) (glyph : Glyph) (item : Item) : Reader :=
  { r with last? := some glyph, items := item :: r.items }

/-- The last glyph is this character, escaped or not. -/
def isAfter (r : Reader) (c : Char) : Bool :=
  match r.last? with
  | some (.plain d) | some (.escaped d) => c = d
  | _ => false

/-- A group of branches opens. -/
def openGroup (r : Reader) : Reader :=
  ⟨some (.plain '{'), ⟨r.items, []⟩ :: r.groups, []⟩

/-- A comma. It stands for itself where no group is open. -/
def comma (r : Reader) : Reader :=
  match r.groups with
  | [] => r.push (.plain ',') (.literal ',')
  | g :: groups =>
    ⟨some (.plain ','), { g with branches := r.items.reverse :: g.branches } :: groups, []⟩

/-- The innermost group closes. Branches with nothing in them do not count. -/
def closeGroup (r : Reader) : Except Fault Reader :=
  match r.groups with
  | [] => .error .unopenedAlternates
  | g :: groups =>
    let branches := (r.items.reverse :: g.branches).reverse.filter fun b => !isVoid b
    .ok ⟨some (.plain '}'), groups, .alternates branches :: g.before⟩

/-- The reader after one glyph that is no asterisk. -/
def step (r : Reader) : Glyph → Except Fault Reader
  | .plain '{' => .ok r.openGroup
  | .plain '}' => r.closeGroup
  | .plain ',' => .ok r.comma
  | .plain '?' => .ok (r.push (.plain '?') .any)
  | .plain '*' => .ok (r.push (.plain '*') .star)
  | .plain c => .ok (r.push (.plain c) (.literal c))
  | .escaped c => .ok (r.push (.escaped c) (.literal c))
  | .bracket item => .ok (r.push (.bracket item) item)
  | .fault f => .error f

/-- Two asterisks that are nothing more. -/
def twoStars (r : Reader) : Reader :=
  (r.push (.plain '*') .star).push (.plain '*') .star

/-- Two asterisks may stand for directories after what has been read: after a slash, and in a
branch also after a comma or a brace. -/
def isBeforeDirectories (r : Reader) : Bool :=
  r.isAfter '/' || (!r.groups.isEmpty && (r.isAfter ',' || r.isAfter '{'))

/-- The reader with what stands for a slash and the directories after it, in the place of that
slash. Directories after directories are directories. -/
def directories (r : Reader) (glyph : Glyph) (item : Item) : Reader :=
  let rest := r.items.tail
  match r.items with
  | .lead :: _ => { r with last? := some glyph, items := .lead :: rest }
  | .tail :: _ => { r with last? := some glyph, items := .tail :: rest }
  | _ => { r with last? := some glyph, items := item :: rest }

/-- The reader after two asterisks, and how many glyphs after them it has read too. -/
def stars (r : Reader) (next? : Option Glyph) : Reader × Nat :=
  let star : Glyph := .plain '*'
  if r.items = [] then
    match next? with
    | none => (r.push star .lead, 0)
    | some (.plain '/') => (r.push (.plain '/') .lead, 1)
    | _ => (r.twoStars, 0)
  else if !r.isBeforeDirectories then (r.twoStars, 0)
  else
    match next? with
    | none => (r.directories star .tail, 0)
    | some (.plain '/') => (r.directories (.plain '/') .between, 1)
    | some (.plain ',') | some (.plain '}') =>
      if r.groups.isEmpty then (r.twoStars, 0) else (r.directories star .tail, 0)
    | _ => (r.twoStars, 0)

/-- Reads all glyphs. -/
def run (r : Reader) : List Glyph → Except Fault Reader
  | [] => .ok r
  | .plain '*' :: .plain '*' :: .plain '/' :: rest =>
    match r.stars (some (.plain '/')) with
    | (r, 0) => run r (.plain '/' :: rest)
    | (r, _) => run r rest
  | .plain '*' :: .plain '*' :: rest => run (r.stars rest.head?).1 rest
  | glyph :: rest =>
    match r.step glyph with
    | .ok r => run r rest
    | .error f => .error f

/-- The items that have been read, if no group is open. -/
def finish (r : Reader) : Except Fault Glob :=
  if r.groups.isEmpty then .ok ⟨r.items.reverse⟩ else .error .unclosedAlternates

end Reader

/-- The glob that a text writes. -/
def read (text : String) : Except Fault Glob :=
  (Reader.start.run (glyphs text)).bind Reader.finish

end PhpRename.Glob
