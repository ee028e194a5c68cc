import Mathlib.Data.List.Induction
import PhpRename.Disk.Place

/-!
# Entries of a disk

* `node?_set`: what stands under a name after one name has got something else.
* `Disk.IsTree`: each entry lies in a directory, and so does the working directory.
* `Disk.Replaces`: one file has new content, or stands where a link stood; nothing else is changed.
  A tree stays a tree.
-/

namespace PhpRename.Disk

variable {d d' : Disk} {n m : Name} {node : Node} {last : String} {content : Content}

theorem node?_of_ne_nil (d : Disk) (hn : n ≠ []) : d.node? n = d.entries.lookup n :=
  if_neg hn

theorem lookup_map_set (entries : List (Name × Node)) (n m : Name) (node : Node) :
    (entries.map fun e => if e.1 = n then (n, node) else e).lookup m =
      if m = n then (entries.lookup n).map fun _ => node else entries.lookup m := by
  induction entries with
  | nil => simp
  | cons e entries ih =>
    obtain ⟨k, old⟩ := e
    rw [List.map_cons]
    by_cases hk : k = n
    · subst hk
      by_cases hm : m = k
      · simp [hm]
      · simp [List.lookup_cons, beq_eq_false_iff_ne.2 hm, ih, hm]
    · rw [if_neg (show ¬ (k, old).1 = n from hk), List.lookup_cons, ih]
      by_cases hm : m = n
      · subst hm
        simp [List.lookup_cons, beq_eq_false_iff_ne.2 (Ne.symm hk)]
      · simp [List.lookup_cons, hm]

/-- **What stands under a name** after `n` has got the node. -/
theorem node?_set (d : Disk) (hn : n ≠ []) (m : Name) (node : Node) :
    (d.set n node).node? m = if m = n then some node else d.node? m := by
  by_cases hm : m = []
  · subst hm
    rw [if_neg (Ne.symm hn)]
    rfl
  rw [node?_of_ne_nil _ hm, node?_of_ne_nil _ hm, set]
  split
  · rename_i hsome
    rw [lookup_map_set]
    split
    · obtain ⟨old, hold⟩ := Option.isSome_iff_exists.1 hsome
      rw [hold, Option.map_some]
    · rfl
  · rename_i hnone
    rw [List.lookup_append]
    split
    · rename_i he
      subst he
      rw [Option.not_isSome_iff_eq_none.1 hnone, Option.none_or, List.lookup_cons_self]
    · rename_i hne
      rw [List.lookup_cons, beq_eq_false_iff_ne.2 hne]
      exact Option.or_none

/-! ## Trees -/

/-- A directory stands under the name. -/
def IsDirectory (d : Disk) (n : Name) : Prop :=
  ∃ writable, d.node? n = some (.directory writable)

theorem isDirectory_nil (d : Disk) : d.IsDirectory [] :=
  ⟨true, rfl⟩

/-- Each entry lies in a directory, and the working directory is one. -/
structure IsTree (d : Disk) : Prop where
  here : d.IsDirectory d.here
  parent : ∀ {dir last node}, d.node? (dir ++ [last]) = some node → d.IsDirectory dir

/-- A disk is a tree if each entry lies in a directory, as can be looked up. -/
theorem isTree_of_entries (here : d.IsDirectory d.here)
    (h : ∀ e ∈ d.entries, d.node? e.1.dropLast = some (.directory true) ∨
      d.node? e.1.dropLast = some (.directory false)) : d.IsTree := by
  refine ⟨here, ?_⟩
  intro dir last node hnode
  rw [node?_of_ne_nil _ (by simp)] at hnode
  obtain ⟨before, after, hentries, -⟩ := List.lookup_eq_some_iff.1 hnode
  have hdir := h (dir ++ [last], node) (by rw [hentries]; simp)
  rw [List.dropLast_concat] at hdir
  rcases hdir with hdir | hdir
  · exact ⟨true, hdir⟩
  · exact ⟨false, hdir⟩

theorem IsTree.dropLast (h : d.IsTree) (hn : d.IsDirectory n) : d.IsDirectory n.dropLast := by
  cases n using List.reverseRecOn with
  | nil => exact hn
  | append_singleton dir last =>
    obtain ⟨writable, hnode⟩ := hn
    rw [List.dropLast_concat]
    exact h.parent hnode

/-! ## New content for one file -/

/-- Under the name, where a file or a link stood, stands a file with the content; all else is as it
was. -/
structure Replaces (d d' : Disk) (n : Name) (content : Content) : Prop where
  here : d'.here = d.here
  there : d'.node? n = some (.file content true)
  old : ∃ node, d.node? n = some node ∧ ¬ d.IsDirectory n
  others : ∀ m, m ≠ n → d'.node? m = d.node? m

theorem Replaces.isDirectory (h : d.Replaces d' n content) (hm : d.IsDirectory m) :
    d'.IsDirectory m := by
  obtain ⟨node, -, hfile⟩ := h.old
  have hne : m ≠ n := fun he => hfile (he ▸ hm)
  obtain ⟨writable, hnode⟩ := hm
  exact ⟨writable, by rw [h.others m hne, hnode]⟩

theorem Replaces.isTree (h : d.Replaces d' n content) (hd : d.IsTree) : d'.IsTree := by
  refine ⟨?_, ?_⟩
  · rw [h.here]
    exact h.isDirectory hd.here
  · intro dir last node hnode
    refine h.isDirectory ?_
    by_cases he : dir ++ [last] = n
    · obtain ⟨old, hold, -⟩ := h.old
      rw [← he] at hold
      exact hd.parent hold
    · rw [h.others _ he] at hnode
      exact hd.parent hnode

theorem replaces_set (hnode : d.node? n = some node) (hfile : ¬ d.IsDirectory n) (content : Content) :
    d.Replaces (d.set n (.file content true)) n content := by
  have hn : n ≠ [] := fun he => hfile (he ▸ d.isDirectory_nil)
  refine ⟨?_, ?_, ⟨node, hnode, hfile⟩, ?_⟩
  · rw [set]
    split <;> rfl
  · rw [node?_set d hn, if_pos rfl]
  · intro m hm
    rw [node?_set d hn, if_neg hm]

end PhpRename.Disk
