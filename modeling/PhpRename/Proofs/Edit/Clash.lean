import Mathlib.Data.List.NodupEquivFin
import Mathlib.Data.List.Pairwise
import Mathlib.Data.List.Permutation
import PhpRename.Edit.Splice

/-!
# Competing edits are found among neighbours

Edits are compared with their neighbours only, once they are in order of offset and length. If
two edits compete, so does the first of them with every edit between them (`overlaps_of_between`),
its neighbour in particular. Hence

* `clashingNeighbours_eq_none_iff`: in an ordered list no neighbours compete if and only if no
  edits do.
* `checkClashes_eq_ok_iff`, `checkClashes_eq_error`: edits pass the check if and only if no two of them
  compete, and a refusal names two that do.
* `checkClashes_in_64_bits`: the check in 64 bits. It never refuses edits without cause, and it is
  complete as long as no edit ends beyond the offsets; then it is the same check
  (`checkClashesBy_wrappedStop`).
-/

namespace PhpRename.Edit

variable {e f g : Edit} {edits : List Edit} {ends ends' : Edit → Nat}

theorem overlapsBy_iff : overlapsBy ends e f = true ↔
    e.offset = f.offset ∨ (e.offset < ends f ∧ f.offset < ends e) := by
  simp [overlapsBy]

theorem overlapsBy_comm (ends : Edit → Nat) (e f : Edit) :
    overlapsBy ends e f = overlapsBy ends f e := by
  rw [Bool.eq_iff_iff, overlapsBy_iff, overlapsBy_iff]
  omega

theorem overlaps_iff :
    e.overlaps f = true ↔ e.offset = f.offset ∨ (e.offset < f.stop ∧ f.offset < e.stop) :=
  overlapsBy_iff

theorem overlaps_comm (e f : Edit) : e.overlaps f = f.overlaps e :=
  overlapsBy_comm stop e f

theorem before_iff :
    before e f = true ↔ e.offset < f.offset ∨ (e.offset = f.offset ∧ e.length ≤ f.length) := by
  simp [before]

theorem before_trans (hef : before e f = true) (hfg : before f g = true) : before e g = true := by
  rw [before_iff] at *; omega

theorem before_total (e f : Edit) : (before e f || before f e) = true := by
  rw [Bool.or_eq_true, before_iff, before_iff]; omega

/-- No two edits of the list compete. -/
def Apart (edits : List Edit) : Prop :=
  edits.Pairwise fun e f => e.overlaps f = false

theorem Apart.perm {edits' : List Edit} (h : Apart edits) (hp : edits.Perm edits') :
    Apart edits' := by
  refine (hp.pairwise_iff fun {e f} hef => ?_).1 h
  rw [overlaps_comm]; exact hef

/-- What competes with a later edit competes with all edits in between. -/
theorem overlaps_of_between (hef : before e f = true) (hfg : before f g = true)
    (h : e.overlaps g = true) : e.overlaps f = true := by
  rw [overlaps_iff] at *
  rw [before_iff] at *
  unfold stop at *
  omega

/-- Of two edits that do not compete, the earlier one ends where the later one begins, or before. -/
theorem stop_le_of_before (hef : before e f = true) (h : e.overlaps f = false) :
    e.stop ≤ f.offset ∧ e.offset < f.offset := by
  rw [← Bool.not_eq_true, overlaps_iff] at h
  rw [before_iff] at hef
  unfold stop at *
  omega

theorem clashingNeighbours_cons_cons (ends : Edit → Nat) (e f : Edit) (rest : List Edit) :
    clashingNeighbours ends (e :: f :: rest) =
      if overlapsBy ends e f then some (e, f) else clashingNeighbours ends (f :: rest) := rfl

/-- **Neighbours are enough.** -/
theorem clashingNeighbours_eq_none_iff (h : edits.Pairwise fun e f => before e f = true) :
    clashingNeighbours stop edits = none ↔ Apart edits := by
  induction edits with
  | nil => simp [clashingNeighbours, Apart]
  | cons e edits ih =>
    cases edits with
    | nil => simp [clashingNeighbours, Apart]
    | cons f rest =>
      obtain ⟨he, hrest⟩ := List.pairwise_cons.1 h
      have hf := (List.pairwise_cons.1 hrest).1
      rw [clashingNeighbours_cons_cons, ← overlaps, Apart, List.pairwise_cons]
      constructor
      · intro hn
        split at hn
        · cases hn
        rename_i hef
        refine ⟨fun g hg => ?_, (ih hrest).1 hn⟩
        rcases List.mem_cons.1 hg with rfl | hg
        · simpa using hef
        · -- a clash with a later edit would be one with the neighbour
          by_contra heg
          exact hef (overlaps_of_between (he f List.mem_cons_self) (hf g hg) (by simpa using heg))
      · rintro ⟨hapart, htail⟩
        rw [hapart f List.mem_cons_self]
        exact (ih hrest).2 htail

/-- Neighbours that compete are found only if some do, wherever edits are said to end. -/
theorem clashingNeighbours_eq_some (h : clashingNeighbours ends edits = some (e, f)) :
    overlapsBy ends e f = true ∧ [e, f].Sublist edits := by
  induction edits with
  | nil => simp [clashingNeighbours] at h
  | cons a edits ih =>
    cases edits with
    | nil => simp [clashingNeighbours] at h
    | cons b rest =>
      rw [clashingNeighbours_cons_cons] at h
      split at h
      · rename_i hab
        cases h
        exact ⟨hab, .cons_cons _ (.cons_cons _ (List.nil_sublist rest))⟩
      · exact ⟨(ih h).1, .cons _ (ih h).2⟩

theorem pairwise_mergeSort_before (edits : List Edit) :
    (edits.mergeSort before).Pairwise fun e f => before e f = true :=
  @List.pairwise_mergeSort _ before (fun _ _ _ => before_trans) before_total edits

/-- Two members of a list in a row stand at two positions of any rearrangement of it. -/
theorem exists_positions {α : Type*} {a b : α} {xs ys : List α} (h : [a, b].Sublist xs)
    (hp : xs.Perm ys) :
    ∃ (i j : ℕ) (hi : i < ys.length) (hj : j < ys.length), i ≠ j ∧ ys[i] = a ∧ ys[j] = b := by
  obtain ⟨l, hl, hs⟩ := h.subperm.trans hp.subperm
  obtain ⟨f, hf⟩ := List.sublist_iff_exists_fin_orderEmbedding_get_eq.1 hs
  -- the pair stands in `ys` in this order or in the other one
  have hlen : l.length = 2 := by rw [hl.length_eq]; rfl
  have hne : f ⟨0, by omega⟩ ≠ f ⟨1, by omega⟩ := fun he => by
    have := f.injective he
    simp at this
  have h0 := hf ⟨0, by omega⟩
  have h1 := hf ⟨1, by omega⟩
  simp only [List.get_eq_getElem] at h0 h1
  have hne' := Fin.val_ne_of_ne hne
  rcases List.perm_pair.1 hl with rfl | rfl
  · exact ⟨_, _, (f _).isLt, (f _).isLt, hne', h0.symm, h1.symm⟩
  · exact ⟨_, _, (f _).isLt, (f _).isLt, hne'.symm, h1.symm, h0.symm⟩

theorem firstClash?_eq_none_iff : firstClash? stop edits = none ↔ Apart edits := by
  have hp := List.mergeSort_perm edits before
  rw [firstClash?, clashingNeighbours_eq_none_iff (pairwise_mergeSort_before edits)]
  exact ⟨fun h => h.perm hp, fun h => h.perm hp.symm⟩

theorem checkClashesBy_eq_ok_iff : checkClashesBy ends edits = .ok () ↔ firstClash? ends edits = none := by
  rw [checkClashesBy]
  cases firstClash? ends edits with
  | none => simp
  | some pair => simp

theorem checkClashes_eq_ok_iff : checkClashes edits = .ok () ↔ Apart edits :=
  checkClashesBy_eq_ok_iff.trans firstClash?_eq_none_iff

/-- A refusal names two competing edits, at two positions of the list. -/
theorem checkClashesBy_eq_error {fault : Fault} (h : checkClashesBy ends edits = .error fault) :
    ∃ (i j : ℕ) (hi : i < edits.length) (hj : j < edits.length), i ≠ j ∧
      overlapsBy ends edits[i] edits[j] = true ∧
        fault = .clash (edits[i].offset, ends edits[i]) (edits[j].offset, ends edits[j]) := by
  rw [checkClashesBy] at h
  cases hc : firstClash? ends edits with
  | none => rw [hc] at h; cases h
  | some pair =>
    obtain ⟨e, f⟩ := pair
    rw [hc] at h
    obtain ⟨hef, hsub⟩ := clashingNeighbours_eq_some hc
    obtain ⟨i, j, hi, hj, hij, rfl, rfl⟩ := exists_positions hsub (List.mergeSort_perm edits before)
    exact ⟨i, j, hi, hj, hij, hef, (Except.error.inj h).symm⟩

theorem apart_iff_forall : Apart edits ↔
    ∀ (i j : ℕ) (hi : i < edits.length) (hj : j < edits.length), i ≠ j →
      edits[i].overlaps edits[j] = false := by
  rw [Apart, List.pairwise_iff_getElem]
  constructor
  · intro h i j hi hj hij
    rcases Nat.lt_or_gt_of_ne hij with hlt | hlt
    · exact h i j hi hj hlt
    · rw [overlaps_comm]; exact h j i hj hi hlt
  · intro h i j hi hj hlt
    exact h i j hi hj (Nat.ne_of_lt hlt)

/-! ## In 64 bits -/

theorem overlapsBy_congr (he : ends e = ends' e) (hf : ends f = ends' f) :
    overlapsBy ends e f = overlapsBy ends' e f := by
  rw [overlapsBy, overlapsBy, he, hf]

theorem clashingNeighbours_congr (h : ∀ e ∈ edits, ends e = ends' e) :
    clashingNeighbours ends edits = clashingNeighbours ends' edits := by
  induction edits with
  | nil => rfl
  | cons e edits ih =>
    cases edits with
    | nil => rfl
    | cons f rest =>
      obtain ⟨he, hrest⟩ := List.forall_mem_cons.1 h
      rw [clashingNeighbours_cons_cons, clashingNeighbours_cons_cons, ih hrest,
        overlapsBy_congr he (hrest f List.mem_cons_self)]

/-- What the first clash is, depends only on where the edits of the list end. -/
theorem firstClash?_congr (h : ∀ e ∈ edits, ends e = ends' e) :
    firstClash? ends edits = firstClash? ends' edits :=
  clashingNeighbours_congr fun e he => h e (List.mem_mergeSort.1 he)

theorem wrappedStop_eq (h : e.stop < offsetCount) : e.wrappedStop = e.stop :=
  Nat.mod_eq_of_lt h

/-- As long as no edit ends beyond the offsets, the check is the same in 64 bits. -/
theorem checkClashesBy_wrappedStop (h : ∀ e ∈ edits, e.stop < offsetCount) :
    checkClashesBy wrappedStop edits = checkClashes edits := by
  have hends : ∀ e ∈ edits, e.wrappedStop = e.stop := fun e he => wrappedStop_eq (h e he)
  rw [checkClashes, checkClashesBy, checkClashesBy, firstClash?_congr hends]
  cases hc : firstClash? stop edits with
  | none => rfl
  | some pair =>
    obtain ⟨e, f⟩ := pair
    have hmem : ∀ g ∈ [e, f], g ∈ edits := fun g hg =>
      List.mem_mergeSort.1 ((clashingNeighbours_eq_some hc).2.subset hg)
    obtain ⟨he, hf⟩ := List.forall_mem_cons.1 hmem
    simp only [hends e he, hends f (hf f List.mem_cons_self)]

/-- **The check in 64 bits.** It compares neighbours only, and yet it accepts every list of edits no two
of which compete, at whatever positions; what it reports of a refused list are the ranges of two edits
of the list that do. If all edits end at offsets that 64 bits tell apart, it accepts no other list. -/
theorem checkClashes_in_64_bits (edits : List Edit) :
    ((∀ (i j : ℕ) (hi : i < edits.length) (hj : j < edits.length), i ≠ j →
        overlapsBy wrappedStop edits[i] edits[j] = false) →
      checkClashesBy wrappedStop edits = .ok ()) ∧
    ((∀ e ∈ edits, e.offset + e.length < offsetCount) → checkClashesBy wrappedStop edits = .ok () →
      ∀ (i j : ℕ) (hi : i < edits.length) (hj : j < edits.length), i ≠ j →
        overlapsBy wrappedStop edits[i] edits[j] = false) ∧
    ∀ fault, checkClashesBy wrappedStop edits = .error fault →
      ∃ (i j : ℕ) (hi : i < edits.length) (hj : j < edits.length), i ≠ j ∧
        overlapsBy wrappedStop edits[i] edits[j] = true ∧
          fault = .clash (edits[i].offset, edits[i].wrappedStop)
            (edits[j].offset, edits[j].wrappedStop) := by
  refine ⟨fun hnone => ?_, fun hshort hok => ?_, fun fault => checkClashesBy_eq_error⟩
  · cases hcheck : checkClashesBy wrappedStop edits with
    | ok => rfl
    | error fault =>
      obtain ⟨i, j, hi, hj, hij, hclash, -⟩ := checkClashesBy_eq_error hcheck
      rw [hnone i j hi hj hij] at hclash
      cases hclash
  · rw [checkClashesBy_wrappedStop hshort, checkClashes_eq_ok_iff, apart_iff_forall] at hok
    intro i j hi hj hij
    rw [overlapsBy_congr (wrappedStop_eq (hshort _ (List.getElem_mem hi)))
      (wrappedStop_eq (hshort _ (List.getElem_mem hj)))]
    exact hok i j hi hj hij

/-- An insertion behind an edit, and an edit that ends at the last offset. -/
theorem checkClashes_in_64_bits_last :
    let edits : List Edit := [⟨⟨"/a"⟩, offsetCount - 3, 2, "x", .certain, 1⟩,
      ⟨⟨"/a"⟩, 0, 3, "y", .certain, 1⟩, ⟨⟨"/a"⟩, 3, 0, "z", .certain, 1⟩]
    (∀ e ∈ edits, e.offset + e.length < offsetCount) ∧ checkClashesBy wrappedStop edits = .ok () ∧
      overlapsBy wrappedStop edits[0] edits[1] = false ∧
      overlapsBy wrappedStop edits[1] edits[2] = false := by
  intro edits
  have hshort : ∀ e ∈ edits, e.offset + e.length < offsetCount := by decide
  have hok : checkClashesBy wrappedStop edits = .ok () := by cbv
  have hnone := (checkClashes_in_64_bits edits).2.1 hshort hok
  exact ⟨hshort, hok, hnone 0 1 (by decide) (by decide) (by decide),
    hnone 1 2 (by decide) (by decide) (by decide)⟩

/-- **An edit that ends beyond the offsets hides others.** Its end is counted from zero again, so neither
neighbour of it is seen to compete with it; those two compete, and the list is accepted. -/
theorem checkClashes_accepts_wrapped :
    let edits : List Edit := [⟨⟨"/a"⟩, 9223372036854775808, 100, "x", .certain, 1⟩,
      ⟨⟨"/a"⟩, 9223372036854775858, 9223372036854775758, "y", .certain, 1⟩,
      ⟨⟨"/a"⟩, 9223372036854775868, 1, "z", .certain, 1⟩]
    checkClashesBy wrappedStop edits = .ok () ∧
      ∃ (i j : ℕ) (hi : i < edits.length) (hj : j < edits.length), i ≠ j ∧
        overlapsBy wrappedStop edits[i] edits[j] = true := by
  intro edits
  have hsorted : edits.mergeSort before = edits := List.mergeSort_of_pairwise (by decide)
  have hok : checkClashesBy wrappedStop edits = .ok () := by
    rw [checkClashesBy, firstClash?, hsorted]
    rfl
  exact ⟨hok, 0, 2, by decide, by decide, by decide, by decide⟩

end PhpRename.Edit
