import PhpRename.Ledger.Enact
import PhpRename.Proofs.Edit.Choice

/-!
# When a ledger can be enacted

* `enact_eq_ok`: what enacting a ledger comes to; `enact_of_refused`: what it comes to if it is refused.
* `exists_enact_eq_ok`: a ledger can be enacted if, in every file, no two edits that are certain
  compete.
-/

namespace PhpRename.Ledger

variable {l : Ledger} {d : Disk}

/-- Nothing is refused if and only if in no file the edits that are chosen compete. -/
theorem firstClash?_eq_none_iff {choices : List (Path × Choice)} :
    firstClash? choices = none ↔ ∀ c ∈ choices, Edit.Apart c.2.apply := by
  induction choices with
  | nil => simp [firstClash?]
  | cons c choices ih =>
    rw [List.forall_mem_cons, ← ih, ← Edit.checkClashes_eq_ok_iff, firstClash?]
    cases Edit.checkClashes c.2.apply with
    | error fault => simp
    | ok => simp

/-- The disk and the report once the edits have been made. -/
def edited (l : Ledger) (d : Disk) : Progress :=
  l.choices.foldl applyChoice (Progress.start d)

/-- What enacting a ledger comes to: nothing that is chosen competes, the edits are made, and then
the moves. -/
theorem enact_eq_ok {l' : Ledger} {done : Progress} (h : l.enact d = (l', done, none)) :
    (∀ c ∈ l.choices, Edit.Apart c.2.apply) ∧
      done = l.moves.foldl (applyMove l.mode) (l.edited d) ∧
      l' = { l with moves := [], notices := noticesOf l.choices,
                    suppressed := done.report.suppressed } := by
  rw [enact] at h
  split at h
  · cases h
  · rename_i hclash
    cases h
    exact ⟨firstClash?_eq_none_iff.1 hclash, rfl, rfl⟩

/-- **A ledger that is refused stays as it is**, and so does the disk; nothing is said. -/
theorem enact_of_refused {failure : Failure} (h : (l.enact d).2.2 = some failure) :
    l.enact d = (l, Progress.start d, some failure) := by
  rw [enact] at h ⊢
  split at h
  · rename_i failure' hclash
    obtain rfl : failure' = failure := Option.some.inj h
    rfl
  · cases h

/-- **A ledger can be enacted if nothing that is certain competes**, in any mode and on any
disk. -/
theorem exists_enact_eq_ok (h : ∀ s ∈ l.changes, Edit.CertainApart s.edits) (d : Disk) :
    ∃ l' done, l.enact d = (l', done, none) := by
  have hnone : firstClash? l.choices = none := by
    refine firstClash?_eq_none_iff.2 fun c hc => ?_
    obtain ⟨s, hs, rfl⟩ := List.mem_map.1 hc
    exact Choice.apart_apply l.mode (h s hs)
  rw [enact, hnone]
  exact ⟨_, _, rfl⟩

end PhpRename.Ledger
