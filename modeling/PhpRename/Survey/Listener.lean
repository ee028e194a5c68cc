import PhpRename.Facts.Observer
import PhpRename.Rename.Proposer

/-!
# Listeners

A pass shows every site of a file to every listener, in order. Some listeners learn facts, the
others propose edits by what is known so far.

* `Findings.ofSource`: what the listeners find in a file.
-/

namespace PhpRename

/-- Something that looks at every site. -/
inductive Listener where
  | observer (o : Observer)
  | proposer (p : Proposer)

/-- What listeners have found so far. -/
structure Findings where
  db : Symbols
  edits : List Edit

namespace Listener

/-- The listener learns facts and proposes nothing. -/
def isObserver : Listener → Bool
  | observer _ => true
  | proposer _ => false

/-- What has been found once the listener has looked at a site. -/
def visit (s : Php.Site) (found : Findings) : Listener → Findings
  | observer o => { found with db := o.observe s found.db }
  | proposer p => { found with edits := found.edits ++ p.edits found.db s }

end Listener

namespace Findings

/-- What has been found once all listeners have looked at a site. -/
def visit (listeners : List Listener) (found : Findings) (s : Php.Site) : Findings :=
  listeners.foldl (Listener.visit s) found

/-- What the listeners find in a file, with what was known before. -/
def ofSource (listeners : List Listener) (db : Symbols) (source : Php.Source) : Findings :=
  (Php.Site.all source).foldl (visit listeners) ⟨db, []⟩

end Findings

end PhpRename
