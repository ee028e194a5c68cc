import PhpRename.Edit.Choice
import PhpRename.Proofs.Edit.Clash

/-!
# What a mode chooses

* `CertainApart`: no two edits that are certain compete.
* `apart_apply`: then no two edits that a mode chooses compete, whatever the mode, since a guess
  that competes is not chosen.
-/

namespace PhpRename

/-- No two edits of the list that are certain compete. -/
def Edit.CertainApart (edits : List Edit) : Prop :=
  edits.Pairwise fun e f => e.confidence = .certain → f.confidence = .certain → e.overlaps f = false

/-- Certain edits do not compete at whatever positions of the list they stand. -/
theorem Edit.certainApart_iff_forall {edits : List Edit} : CertainApart edits ↔
    ∀ (i j : ℕ) (hi : i < edits.length) (hj : j < edits.length), i ≠ j →
      edits[i].confidence = .certain → edits[j].confidence = .certain →
        edits[i].overlaps edits[j] = false := by
  rw [CertainApart, List.pairwise_iff_getElem]
  constructor
  · intro h i j hi hj hij hic hjc
    rcases Nat.lt_or_gt_of_ne hij with hlt | hlt
    · exact h i j hi hj hlt hic hjc
    · rw [overlaps_comm]; exact h j i hj hi hlt hjc hic
  · intro h i j hi hj hlt
    exact h i j hi hj (Nat.ne_of_lt hlt)

namespace Choice

open Edit

variable {edits : List Edit} {mode : Mode} {e f : Edit} {i j : ℕ}

/-- The edit at position `i` is chosen. -/
def chosen (mode : Mode) (edits : List Edit) (p : Edit × ℕ) : Bool :=
  !contestedAt edits p.2 p.1 && mode.admits p.1.confidence

theorem apply_of (mode : Mode) (edits : List Edit) :
    (Choice.of mode edits).apply = (edits.zipIdx.filter (chosen mode edits)).map Prod.fst := by
  rw [Choice.of, List.partition_eq_filter_filter]
  rfl

/-- What a mode chooses is taken from the edits, in their order. -/
theorem apply_sublist (mode : Mode) (edits : List Edit) :
    (Choice.of mode edits).apply.Sublist edits := by
  have hsub := (List.filter_sublist (p := chosen mode edits) (l := edits.zipIdx)).map Prod.fst
  rwa [← apply_of, List.zipIdx_map_fst] at hsub

/-- A chosen edit that competes with another one is certain. -/
theorem certain_of_chosen (h : chosen mode edits (e, i) = true) (hf : (f, j) ∈ edits.zipIdx)
    (hij : i ≠ j) (hov : e.overlaps f = true) : e.confidence = .certain := by
  cases hc : e.confidence with
  | certain => rfl
  | ambiguous =>
    have hcontested : contestedAt edits i e = true := by
      rw [contestedAt, hc, Bool.and_eq_true, List.any_eq_true]
      exact ⟨rfl, (f, j), hf, by simp [hij, hov]⟩
    rw [chosen, hcontested] at h
    cases h

/-- **What a mode chooses does not compete**, if what is certain does not. -/
theorem apart_apply (mode : Mode) (h : CertainApart edits) :
    Apart (Choice.of mode edits).apply := by
  rw [apply_of, Apart, List.pairwise_map]
  -- of two positions the edits that are certain do not compete, and the positions differ
  have hpos : edits.zipIdx.Pairwise fun p q => p.2 ≠ q.2 ∧
      (p.1.confidence = .certain → q.1.confidence = .certain → p.1.overlaps q.1 = false) := by
    rw [List.pairwise_iff_getElem]
    intro i j hi hj hij
    rw [List.length_zipIdx] at hi hj
    rw [List.getElem_zipIdx, List.getElem_zipIdx]
    exact ⟨by dsimp only; omega, List.pairwise_iff_getElem.1 h i j hi hj hij⟩
  refine List.Pairwise.imp_of_mem ?_ (hpos.filter (chosen mode edits))
  rintro ⟨e, i⟩ ⟨f, j⟩ he hf ⟨hij, hcertain⟩
  obtain ⟨he, hechosen⟩ := List.mem_filter.1 he
  obtain ⟨hf, hfchosen⟩ := List.mem_filter.1 hf
  by_contra hov
  have hov' : e.overlaps f = true := by simpa using hov
  have hec := certain_of_chosen hechosen hf hij hov'
  have hfc := certain_of_chosen hfchosen he (Ne.symm hij) (by rw [overlaps_comm]; exact hov')
  exact hov (hcertain hec hfc)

end Choice

end PhpRename
