import Mathlib.Data.List.Perm.Basic
import PhpRename.Proofs.Edit.Choice
import PhpRename.Proofs.Edit.Merge

/-!
# The order of edits does not matter

The check sorts, and edits with one range may come out of it in either order; what it reports are
ranges, and these come out in one order only. A choice compares positions, and where each change
stands once that is comparing changes.

* `checkClashes_perm`: rearranged edits pass the check, or are refused for the same two ranges.
* `Choice.apply_of_distinct`, `Choice.suppress_of_distinct`: a choice without positions.
* `Choice.of_apart`: the choice among edits that do not compete.
* `Choice.alike_of_perm`: from rearranged edits a mode chooses the same ones.
-/

namespace PhpRename

namespace Edit

variable {e f e' f' : Edit} {edits edits' : List Edit}

/-! ## The check -/

/-- Edits in order have one sequence of ranges, whichever way edits with one range stand. -/
theorem map_range_of_pairwise (hp : edits.Perm edits')
    (h : edits.Pairwise fun e f => before e f = true)
    (h' : edits'.Pairwise fun e f => before e f = true) : edits.map range = edits'.map range := by
  have hsorted : ∀ edits : List Edit, edits.Pairwise (fun e f => before e f = true) →
      (edits.map range).Pairwise fun r s => r.1 < s.1 ∨ (r.1 = s.1 ∧ r.2 ≤ s.2) := by
    intro edits h
    rw [List.pairwise_map]
    refine h.imp fun {e f} hef => ?_
    rw [before_iff] at hef
    unfold range stop
    omega
  refine List.Perm.eq_of_pairwise ?_ (hsorted edits h) (hsorted edits' h') (hp.map range)
  intro r s _ _ hrs hsr
  exact Prod.ext (by omega) (by omega)

/-- The ranges of edits in order do not depend on the order they were given in. -/
theorem map_range_mergeSort (hp : edits.Perm edits') :
    (edits.mergeSort before).map range = (edits'.mergeSort before).map range := by
  have hperm := (List.mergeSort_perm edits before).trans
    (hp.trans (List.mergeSort_perm edits' before).symm)
  exact map_range_of_pairwise hperm (pairwise_mergeSort_before edits)
    (pairwise_mergeSort_before edits')

theorem overlaps_of_range (he : e.range = e'.range) (hf : f.range = f'.range) :
    e.overlaps f = e'.overlaps f' := by
  obtain ⟨heo, hes⟩ := Prod.mk.inj he
  obtain ⟨hfo, hfs⟩ := Prod.mk.inj hf
  unfold overlaps overlapsBy
  rw [heo, hes, hfo, hfs]

/-- What clashes, told by ranges, depends on ranges only. -/
theorem clashingNeighbours_of_range (h : edits.map range = edits'.map range) :
    (clashingNeighbours stop edits).map (fun p => (p.1.range, p.2.range)) =
      (clashingNeighbours stop edits').map fun p => (p.1.range, p.2.range) := by
  induction edits generalizing edits' with
  | nil =>
    rw [List.map_nil, eq_comm, List.map_eq_nil_iff] at h
    rw [h]
  | cons e rest ih =>
    obtain ⟨e', rest', rfl, he, hrest⟩ := List.map_eq_cons_iff.1 h.symm
    cases rest with
    | nil =>
      rw [List.map_nil, List.map_eq_nil_iff] at hrest
      rw [hrest]
      rfl
    | cons f rest =>
      obtain ⟨f', rest', rfl, hf, -⟩ := List.map_eq_cons_iff.1 hrest
      rw [clashingNeighbours_cons_cons, clashingNeighbours_cons_cons, ← overlaps, ← overlaps,
        overlaps_of_range he hf]
      split
      · rw [Option.map_some, Option.map_some, he, hf]
      · exact ih hrest.symm

theorem checkClashes_eq (edits : List Edit) : checkClashes edits =
    match (firstClash? stop edits).map fun p => (p.1.range, p.2.range) with
    | none => .ok ()
    | some (r, s) => .error (.clash r s) := by
  rw [checkClashes, checkClashesBy]
  cases firstClash? stop edits <;> rfl

/-- **The check does not depend on the order**, and neither does what it reports. -/
theorem checkClashes_perm (hp : edits.Perm edits') : checkClashes edits = checkClashes edits' := by
  rw [checkClashes_eq, checkClashes_eq, firstClash?, firstClash?,
    clashingNeighbours_of_range (map_range_mergeSort hp)]

/-- Edits that make the same change compete. -/
theorem Apart.distinct (h : Apart edits) : Distinct edits := by
  refine h.imp fun {e f} hef => ?_
  rw [Bool.eq_false_iff] at hef ⊢
  exact fun hsame => hef (overlaps_iff.2 (.inl (sameChange_iff.1 hsame).1))

end Edit

namespace Choice

open Edit

variable {edits edits' : List Edit} {mode : Mode} {e f : Edit} {i : ℕ}

/-! ## The choice -/

/-- The edit is a guess that competes with another change. -/
def contested (edits : List Edit) (e : Edit) : Bool :=
  e.confidence = .ambiguous && edits.any fun f => !e.sameChange f && e.overlaps f

/-- The mode chooses the edit among these. -/
def picks (mode : Mode) (edits : List Edit) (e : Edit) : Bool :=
  !contested edits e && mode.admits e.confidence

/-- Where each change stands once, another position is another change. -/
theorem contestedAt_eq_contested (h : Distinct edits) (hi : (e, i) ∈ edits.zipIdx) :
    contestedAt edits i e = contested edits e := by
  -- positions differ exactly where changes do
  have hpos : ∀ f j, (f, j) ∈ edits.zipIdx → (i ≠ j ↔ e.sameChange f = false) := by
    intro f j hj
    obtain ⟨hilt, rfl⟩ := List.getElem?_eq_some_iff.1 (List.mk_mem_zipIdx_iff_getElem?.1 hi)
    obtain ⟨hjlt, rfl⟩ := List.getElem?_eq_some_iff.1 (List.mk_mem_zipIdx_iff_getElem?.1 hj)
    constructor
    · intro hij
      rcases Nat.lt_or_gt_of_ne hij with hlt | hlt
      · exact List.pairwise_iff_getElem.1 h i j hilt hjlt hlt
      · rw [sameChange_comm]; exact List.pairwise_iff_getElem.1 h j i hjlt hilt hlt
    · rintro hne rfl
      rw [sameChange_self] at hne
      cases hne
  rw [contestedAt, contested]
  congr 1
  rw [Bool.eq_iff_iff, List.any_eq_true, List.any_eq_true]
  constructor
  · rintro ⟨⟨f, j⟩, hj, hcomp⟩
    obtain ⟨hij, hov⟩ := by simpa using hcomp
    exact ⟨f, List.mem_of_getElem? (List.mk_mem_zipIdx_iff_getElem?.1 hj),
      by simp [(hpos f j hj).1 hij, hov]⟩
  · rintro ⟨f, hf, hcomp⟩
    obtain ⟨j, hj⟩ := List.mem_iff_getElem?.1 hf
    have hmem := List.mk_mem_zipIdx_iff_getElem?.2 hj
    obtain ⟨hne, hov⟩ := by simpa using hcomp
    exact ⟨(f, j), hmem, by simp [(hpos f j hmem).2 hne, hov]⟩

theorem chosen_eq_picks (mode : Mode) (h : Distinct edits) {p : Edit × ℕ}
    (hp : p ∈ edits.zipIdx) : chosen mode edits p = picks mode edits p.1 := by
  rw [chosen, contestedAt_eq_contested h hp, picks]

theorem suppress_of (mode : Mode) (edits : List Edit) : (Choice.of mode edits).suppress =
    (edits.zipIdx.filter fun p => !chosen mode edits p).map Prod.fst := by
  rw [Choice.of, List.partition_eq_filter_filter]
  rfl

/-- Each edit is chosen or not. -/
theorem length_add_length (mode : Mode) (edits : List Edit) :
    (Choice.of mode edits).apply.length + (Choice.of mode edits).suppress.length = edits.length := by
  rw [apply_of, suppress_of, List.length_map, List.length_map,
    ← List.length_eq_length_filter_add, List.length_zipIdx]

theorem map_fst_filter_zipIdx (p : Edit → Bool) (edits : List Edit) :
    (edits.zipIdx.filter fun x => p x.1).map Prod.fst = edits.filter p :=
  calc (edits.zipIdx.filter (p ∘ Prod.fst)).map Prod.fst
    _ = (edits.zipIdx.map Prod.fst).filter p := List.filter_map.symm
    _ = edits.filter p := by rw [List.zipIdx_map_fst]

theorem apply_of_distinct (mode : Mode) (h : Distinct edits) :
    (Choice.of mode edits).apply = edits.filter (picks mode edits) := by
  rw [apply_of, List.filter_congr fun p hp => chosen_eq_picks mode h hp, map_fst_filter_zipIdx]

theorem suppress_of_distinct (mode : Mode) (h : Distinct edits) :
    (Choice.of mode edits).suppress = edits.filter fun e => !picks mode edits e := by
  rw [suppress_of, List.filter_congr fun p hp => congrArg (!·) (chosen_eq_picks mode h hp)]
  exact map_fst_filter_zipIdx (fun e => !picks mode edits e) edits

/-- **Of edits that do not compete a mode chooses those that it admits**, and no guess is left out for
the sake of another. -/
theorem of_apart (mode : Mode) (h : Apart edits) : Choice.of mode edits =
    ⟨edits.filter fun e => mode.admits e.confidence,
      edits.filter fun e => !mode.admits e.confidence⟩ := by
  have hsymm : Std.Symm fun e f : Edit => e.overlaps f = false :=
    ⟨fun e f hef => by rw [overlaps_comm]; exact hef⟩
  have hpicks : ∀ e ∈ edits, picks mode edits e = mode.admits e.confidence := by
    intro e he
    have hfree : (edits.any fun f => !e.sameChange f && e.overlaps f) = false := by
      rw [List.any_eq_false]
      intro f hf
      by_cases hef : e = f
      · simp [hef, sameChange_self]
      · simp [List.Pairwise.forall h he hf hef]
    rw [picks, contested, hfree, Bool.and_false]
    rfl
  have happly := apply_of_distinct mode h.distinct
  have hsuppress := suppress_of_distinct mode h.distinct
  rw [List.filter_congr hpicks] at happly
  rw [List.filter_congr fun e he => congrArg (!·) (hpicks e he)] at hsuppress
  rw [← happly, ← hsuppress]

theorem picks_perm (mode : Mode) (hp : edits.Perm edits') : picks mode edits = picks mode edits' := by
  funext e
  rw [picks, picks, contested, contested, hp.any_eq]

/-- The same edits are chosen, in any order, and the same ones are not. -/
def Alike (c c' : Choice) : Prop :=
  c.apply.Perm c'.apply ∧ c.suppress.Perm c'.suppress

/-- **A choice does not depend on the order** of edits that make different changes. -/
theorem alike_of_perm (mode : Mode) (h : Distinct edits) (h' : Distinct edits')
    (hp : edits.Perm edits') : Alike (Choice.of mode edits) (Choice.of mode edits') := by
  rw [Alike, apply_of_distinct mode h, apply_of_distinct mode h', suppress_of_distinct mode h,
    suppress_of_distinct mode h', picks_perm mode hp]
  exact ⟨hp.filter _, hp.filter _⟩

end Choice

end PhpRename
