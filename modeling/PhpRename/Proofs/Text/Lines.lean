import Mathlib.Data.List.TakeWhile
import PhpRename.Proofs.Text.Boundary
import PhpRename.Text.Lines

/-!
# Lines are counted by newlines

* `lineOf_lineStarts`: the line of a boundary is one more than the number of newlines before it.
-/

namespace PhpRename.Text

theorem startsAfter_append (k : Nat) (as bs : List Char) :
    startsAfter k (as ++ bs) = startsAfter k as ++ startsAfter (k + width as) bs := by
  induction as generalizing k with
  | nil => rfl
  | cons c as ih =>
    rw [List.cons_append, startsAfter, startsAfter, width_cons]
    split
    · rename_i hc
      have hw : c.utf8Size = 1 := by rw [hc]; rfl
      rw [ih, List.cons_append, hw, Nat.add_assoc]
    · rw [ih, Nat.add_assoc]

theorem lt_of_mem_startsAfter {k i : Nat} {cs : List Char} (h : i ∈ startsAfter k cs) : k < i := by
  induction cs generalizing k with
  | nil => cases h
  | cons c cs ih =>
    have := c.utf8Size_pos
    rw [startsAfter] at h
    split at h
    · rcases List.mem_cons.1 h with rfl | h
      · omega
      · have := ih h; omega
    · have := ih h; omega

theorem le_of_mem_startsAfter {k i : Nat} {cs : List Char} (h : i ∈ startsAfter k cs) :
    i ≤ k + width cs := by
  induction cs generalizing k with
  | nil => cases h
  | cons c cs ih =>
    rw [startsAfter] at h
    rw [width_cons]
    split at h
    · rename_i hc
      have hw : c.utf8Size = 1 := by rw [hc]; rfl
      rcases List.mem_cons.1 h with rfl | h
      · omega
      · have := ih h; omega
    · have := ih h; omega

theorem length_startsAfter (k : Nat) (cs : List Char) :
    (startsAfter k cs).length = cs.count '\n' := by
  induction cs generalizing k with
  | nil => rfl
  | cons c cs ih =>
    rw [startsAfter, List.count_cons]
    split
    · rename_i hc; simp [ih, hc]
    · rename_i hc; simp [ih, hc]

/-- **The line of a boundary.** -/
theorem lineOf_lineStarts {cs : List Char} {n : Nat} (h : isBoundary cs n = true) :
    lineOf (lineStarts cs) n = (upTo cs n).count '\n' + 1 := by
  obtain ⟨as, bs, rfl, rfl⟩ := isBoundary_iff.1 h
  rw [upTo_append bs rfl, lineOf, lineStarts, startsAfter_append, Nat.zero_add]
  have hfront : ∀ i ∈ 0 :: startsAfter 0 as, decide (i ≤ width as) = true := by
    intro i hi
    rcases List.mem_cons.1 hi with rfl | hi
    · simp
    · have := le_of_mem_startsAfter hi; simpa using this
  have hback : (startsAfter (width as) bs).takeWhile (· ≤ width as) = [] := by
    rw [List.takeWhile_eq_nil_iff]
    intro hpos
    have := lt_of_mem_startsAfter (List.getElem_mem hpos)
    simpa using this
  rw [← List.cons_append, List.takeWhile_append_of_pos hfront, hback, List.append_nil,
    List.length_cons, length_startsAfter]

end PhpRename.Text
