import PhpRename.Path.Basic

/-!
# Scopes of variables

Code outside functions shares one scope across all files. Each function has a scope of its own,
known by its file, its class and its name.
-/

namespace PhpRename

/-- Where a variable lives. -/
inductive VarScope where
  | global
  | function (file : Path) (cls : Option String) (name : String)
deriving Repr, Inhabited

namespace VarScope

/-- No class sorts before every class. -/
def orderClass : Option String → Option String → Ordering
  | none, none => .eq
  | none, some _ => .lt
  | some _, none => .gt
  | some c, some d => compare c d

/-- The global scope comes first; functions sort by file, class and name. -/
def order : VarScope → VarScope → Ordering
  | global, global => .eq
  | global, function .. => .lt
  | function .., global => .gt
  | function f c n, function g d m =>
    (compare f g).then ((orderClass c d).then (compare n m))

instance : Ord VarScope := ⟨order⟩

/-- Functions of one name in one class of one file are one scope, however the path is spelled. -/
def same : VarScope → VarScope → Bool
  | global, global => true
  | function f c n, function g d m => f == g && c = d && n = m
  | _, _ => false

instance : BEq VarScope := ⟨same⟩

end VarScope

end PhpRename
