import Mathlib.Data.List.Induction
import Mathlib.Data.List.Perm.Basic
import PhpRename.Ordered

/-!
# Ordered lists are sets

An ordered list is ascending, and two ascending lists with the same members are one. So a list
gathered in order depends on its members only, not on the order in which they came, as long as
members that compare equal are the same.

* `Ascending`: each member compares less than those after it; `ascending_ofList`.
* `mem_ofList`: gathering in order loses nothing and makes up nothing.
* `ofList_perm`: the order in which the members come does not matter.
-/

namespace PhpRename.Ordered

variable {α : Type*} [Ord α] {x y : α} {xs ys s t : List α}

/-- Each member compares less than those after it. -/
def Ascending (s : List α) : Prop :=
  s.Pairwise fun x y => compare x y = .lt

/-! ## One more member -/

theorem mem_of_mem_insert (h : y ∈ insert x s) : y = x ∨ y ∈ s := by
  induction s with
  | nil => exact .inl (List.mem_singleton.1 h)
  | cons z s ih =>
    rw [insert] at h
    split at h
    · exact List.mem_cons.1 h
    · exact .inr h
    · rcases List.mem_cons.1 h with rfl | h
      · exact .inr List.mem_cons_self
      · exact (ih h).imp_right (List.mem_cons_of_mem z)

theorem mem_insert_of_mem (h : y ∈ s) : y ∈ insert x s := by
  induction s with
  | nil => cases h
  | cons z s ih =>
    rw [insert]
    split
    · exact List.mem_cons_of_mem x h
    · exact h
    · rcases List.mem_cons.1 h with rfl | h
      · exact List.mem_cons_self
      · exact List.mem_cons_of_mem z (ih h)

/-- What is added is there, or something that compares equal is. -/
theorem exists_mem_insert [Std.ReflOrd α] (x : α) (s : List α) :
    ∃ y ∈ insert x s, compare x y = .eq := by
  induction s with
  | nil => exact ⟨x, List.mem_cons_self, Std.compare_self⟩
  | cons z s ih =>
    rw [insert]
    split
    · exact ⟨x, List.mem_cons_self, Std.compare_self⟩
    · rename_i heq
      exact ⟨z, List.mem_cons_self, heq⟩
    · obtain ⟨y, hy, he⟩ := ih
      exact ⟨y, List.mem_cons_of_mem z hy, he⟩

theorem ascending_insert [Std.TransOrd α] (h : Ascending s) (x : α) : Ascending (insert x s) := by
  induction s with
  | nil => exact List.pairwise_singleton ..
  | cons z s ih =>
    obtain ⟨hz, hs⟩ := List.pairwise_cons.1 h
    rw [insert]
    split
    · rename_i hlt
      refine List.pairwise_cons.2 ⟨fun y hy => ?_, h⟩
      rcases List.mem_cons.1 hy with rfl | hy
      · exact hlt
      · exact Std.TransCmp.lt_trans hlt (hz y hy)
    · exact h
    · rename_i hgt
      refine List.pairwise_cons.2 ⟨fun y hy => ?_, ih hs⟩
      rcases mem_of_mem_insert hy with rfl | hy
      · exact Std.OrientedCmp.gt_iff_lt.1 hgt
      · exact hz y hy

/-! ## A list gathered in order -/

theorem ofList_concat (xs : List α) (x : α) : ofList (xs ++ [x]) = insert x (ofList xs) := by
  rw [ofList, List.foldl_concat]
  rfl

theorem ascending_ofList [Std.TransOrd α] (xs : List α) : Ascending (ofList xs) := by
  induction xs using List.reverseRecOn with
  | nil => exact .nil
  | append_singleton xs x ih =>
    rw [ofList_concat]
    exact ascending_insert ih x

theorem mem_of_mem_ofList (h : y ∈ ofList xs) : y ∈ xs := by
  induction xs using List.reverseRecOn with
  | nil => cases h
  | append_singleton xs x ih =>
    rw [ofList_concat] at h
    rcases mem_of_mem_insert h with rfl | h
    · exact List.mem_append_right xs List.mem_cons_self
    · exact List.mem_append_left _ (ih h)

/-- Each member is kept, or one that compares equal is. -/
theorem exists_mem_ofList [Std.ReflOrd α] (h : x ∈ xs) : ∃ y ∈ ofList xs, compare x y = .eq := by
  induction xs using List.reverseRecOn with
  | nil => cases h
  | append_singleton xs z ih =>
    rw [ofList_concat]
    rcases List.mem_append.1 h with h | h
    · obtain ⟨y, hy, he⟩ := ih h
      exact ⟨y, mem_insert_of_mem hy, he⟩
    · obtain rfl := List.mem_singleton.1 h
      exact exists_mem_insert x (ofList xs)

/-- **Gathering in order keeps the members**, if those that compare equal are the same. -/
theorem mem_ofList_iff [Std.ReflOrd α]
    (h : ∀ x ∈ xs, ∀ y ∈ xs, compare x y = .eq → x = y) : x ∈ ofList xs ↔ x ∈ xs := by
  refine ⟨mem_of_mem_ofList, fun hx => ?_⟩
  obtain ⟨y, hy, he⟩ := exists_mem_ofList hx
  rwa [h x hx y (mem_of_mem_ofList hy) he]

theorem mem_ofList [Std.LawfulEqOrd α] : x ∈ ofList xs ↔ x ∈ xs :=
  mem_ofList_iff fun _ _ _ _ => Std.LawfulEqOrd.eq_of_compare

theorem Ascending.nodup [Std.OrientedOrd α] (h : Ascending s) : s.Nodup := by
  refine h.imp fun hxy heq => ?_
  subst heq
  exact Std.OrientedCmp.not_lt_of_lt hxy hxy

/-- **Ascending lists are sets**: those with the same members are one. -/
theorem Ascending.eq_of_mem_iff [Std.OrientedOrd α] (hs : Ascending s) (ht : Ascending t)
    (h : ∀ x, x ∈ s ↔ x ∈ t) : s = t := by
  have hanti : ∀ x y, x ∈ s → y ∈ t → compare x y = .lt → compare y x = .lt → x = y :=
    fun x y _ _ hxy hyx => absurd hyx (Std.OrientedCmp.not_lt_of_lt hxy)
  exact List.Perm.eq_of_pairwise hanti hs ht ((List.perm_ext_iff_of_nodup hs.nodup ht.nodup).2 h)

/-- **The order in which members come does not matter**, if those that compare equal are the
same. -/
theorem ofList_perm [Std.TransOrd α] (h : ∀ x ∈ xs, ∀ y ∈ xs, compare x y = .eq → x = y)
    (hp : xs.Perm ys) : ofList xs = ofList ys := by
  refine (ascending_ofList xs).eq_of_mem_iff (ascending_ofList ys) fun x => ?_
  have h' : ∀ x ∈ ys, ∀ y ∈ ys, compare x y = .eq → x = y :=
    fun x hx y hy => h x (hp.mem_iff.2 hx) y (hp.mem_iff.2 hy)
  rw [mem_ofList_iff h, mem_ofList_iff h', hp.mem_iff]

end PhpRename.Ordered
