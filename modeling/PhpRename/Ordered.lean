/-!
# Ordered lists

A set is a list in ascending order in which no two members compare equal. Members that compare
equal need not be the same (one path has many spellings); the one that came first stays.
-/

namespace PhpRename.Ordered

/-- Adds `x` to an ordered list, unless a member equals it. -/
def insert [Ord α] (x : α) : List α → List α
  | [] => [x]
  | y :: ys =>
    match compare x y with
    | .lt => x :: y :: ys
    | .eq => y :: ys
    | .gt => y :: insert x ys

/-- The members of a list, in order. -/
def ofList [Ord α] (xs : List α) : List α :=
  xs.foldl (fun s x => insert x s) []

end PhpRename.Ordered
