import Mathlib.Data.List.Chain
import PhpRename.Proofs.Edit.Order
import PhpRename.Proofs.Edit.Splice

/-!
# When edits cannot be made

Making edits has a test of its own for those that compete: none may end behind the place where the
last one was made. The check compares edits otherwise, and refuses two edits at one offset even if
one of them has no length. Of all else the two think alike.

* `exists_spliceDown_iff`: edits from the last to the first are made if they fit the content and
  each ends where the one before it was made, or before that.
* `isChain_mergeSort_after`: the order from the last to the first is as good as any other one.
* `splice_succeeds_iff`: when edits are made, and what the check says of them.
-/

namespace PhpRename.Edit

open Text

variable {content : List Char} {e f : Edit} {edits sorted : List Edit} {floor : Nat}

/-- The first edit ends where the other one begins, or before. -/
def EndsBy (e f : Edit) : Prop :=
  e.stop ≤ f.offset

instance : Trans EndsBy EndsBy EndsBy where
  trans {_ f _} hef hfg := Nat.le_trans hef (Nat.le_trans (offset_le_stop f) hfg)

/-- **Edits that are made from the last to the first** fit the content, the first of them ends by
`floor`, and each other one by the offset of the one before it. -/
theorem exists_spliceDown_iff (edits : List Edit) (floor : Nat) (done : List Char) :
    (∃ result, spliceDown content edits floor done = .ok result) ↔
      (∀ e ∈ edits, e.fits content = true) ∧ (∀ e ∈ edits.head?, e.stop ≤ floor) ∧
        edits.IsChain fun e f => EndsBy f e := by
  induction edits generalizing floor done with
  | nil => simp [spliceDown]
  | cons e rest ih =>
    rw [spliceDown, List.forall_mem_cons, List.isChain_cons]
    by_cases hfit : e.fits content = true
    swap
    · simp [hfit]
    by_cases hle : e.stop ≤ floor
    swap
    · simp [hfit, hle, Nat.lt_of_not_le hle]
    rw [if_neg (by simp [hfit]), if_neg (Nat.not_lt.2 hle), ih]
    simp only [hfit, hle, List.head?_cons, Option.mem_some_iff, forall_eq', true_and, EndsBy]

/-- What ends by where another edit begins is told by the ranges. -/
theorem isChain_congr {edits' : List Edit} (h : edits.map range = edits'.map range) :
    edits.IsChain EndsBy ↔ edits'.IsChain EndsBy := by
  have hrange : ∀ edits : List Edit,
      edits.IsChain EndsBy ↔ (edits.map range).IsChain fun r s => r.2 ≤ s.1 := by
    intro edits
    rw [List.isChain_map]
    rfl
  rw [hrange, hrange, h]

/-- Sorted from the last to the first, edits follow one another backwards if and only if they do so
in any order from the first to the last. -/
theorem isChain_mergeSort_after (hp : sorted.Perm edits)
    (hs : sorted.Pairwise fun e f => before e f = true) :
    (edits.mergeSort fun e f => before f e).IsChain (fun e f => EndsBy f e) ↔
      sorted.IsChain EndsBy := by
  have hdown : (edits.mergeSort fun e f => before f e).Pairwise fun e f => before f e = true :=
    @List.pairwise_mergeSort _ (fun e f => before f e) (fun _ _ _ hef hfg => before_trans hfg hef)
      (fun e f => before_total f e) edits
  have hperm : (edits.mergeSort fun e f => before f e).reverse.Perm sorted :=
    (List.reverse_perm _).trans ((List.mergeSort_perm _ _).trans hp.symm)
  rw [← List.isChain_reverse]
  exact isChain_congr (map_range_of_pairwise hperm (List.pairwise_reverse.2 hdown) hs)

theorem exists_splice_iff (hp : sorted.Perm edits)
    (hs : sorted.Pairwise fun e f => before e f = true) :
    (∃ result, splice content edits = .ok result) ↔
      (∀ e ∈ edits, e.fits content = true) ∧ sorted.IsChain EndsBy := by
  rw [splice, exists_spliceDown_iff, isChain_mergeSort_after hp hs]
  have hmem : ∀ e, e ∈ (edits.mergeSort fun e f => before f e) ↔ e ∈ edits := fun e =>
    List.mem_mergeSort
  simp only [hmem]
  refine and_congr_right fun hfit => ?_
  -- no edit that fits ends behind the content
  refine and_iff_right fun e he => ?_
  have hmem := (hmem e).1 (List.mem_of_head? he)
  exact le_width_of_isBoundary (fits_iff.1 (hfit e hmem)).2

/-- Edits at different offsets that follow one another do not compete. -/
theorem apart_of_isChain (h : sorted.IsChain EndsBy) (hoff : (sorted.map offset).Nodup) :
    Apart sorted := by
  rw [List.Nodup, List.pairwise_map] at hoff
  have hends : sorted.Pairwise EndsBy := List.isChain_iff_pairwise.1 h
  refine (hends.and hoff).imp fun {e f} ⟨hef, hne⟩ => ?_
  unfold EndsBy at hef
  rw [← Bool.not_eq_true, overlaps_iff]
  omega

theorem fits_iff_within : e.fits content = true ↔ e.stop ≤ width content ∧
    isBoundary content e.offset = true ∧ isBoundary content e.stop = true := by
  rw [fits_iff]
  exact ⟨fun h => ⟨le_width_of_isBoundary h.2, h⟩, And.right⟩

/-- **Edits are made unless one of them is bad.** They are made if and only if each ends within the
content and begins and ends between characters, and, in order of offset and length, each ends where
the next one begins, or before. Edits that pass the check are never found to compete. Where all of
them have different offsets and fit the content, they are made if and only if they pass the check. -/
theorem splice_succeeds_iff (content : List Char) (edits : List Edit) :
    (∀ sorted : List Edit, sorted.Perm edits →
      sorted.Pairwise (fun e f => e.offset < f.offset ∨ e.offset = f.offset ∧ e.length ≤ f.length) →
      ((∃ result, splice content edits = .ok result) ↔
        (∀ e ∈ edits, e.stop ≤ width content ∧ isBoundary content e.offset = true ∧
          isBoundary content e.stop = true) ∧
        sorted.IsChain fun e f => e.stop ≤ f.offset)) ∧
    (checkClashes edits = .ok () →
      ∀ first second, splice content edits ≠ .error (.clash first second)) ∧
    ((edits.map offset).Nodup →
      (∀ e ∈ edits, e.stop ≤ width content ∧ isBoundary content e.offset = true ∧
        isBoundary content e.stop = true) →
      ((∃ result, splice content edits = .ok result) ↔ checkClashes edits = .ok ())) := by
  simp only [← fits_iff_within, ← before_iff]
  refine ⟨fun sorted hp hs => exists_splice_iff hp hs, fun hcheck first second hclash => ?_,
    fun hoff hfit => ⟨fun hmade => ?_, fun hcheck => ?_⟩⟩
  · obtain ⟨e, -, -, hfault⟩ := splice_eq_error (checkClashes_eq_ok_iff.1 hcheck) hclash
    cases hfault
  · have hp := List.mergeSort_perm edits before
    obtain ⟨-, hchain⟩ := (exists_splice_iff hp (pairwise_mergeSort_before edits)).1 hmade
    have hoff' := ((hp.map offset).nodup_iff).2 hoff
    exact checkClashes_eq_ok_iff.2 ((apart_of_isChain hchain hoff').perm hp)
  · exact ⟨_, splice_of_apart (checkClashes_eq_ok_iff.1 hcheck) hfit⟩

/-- Edits given out of order: one of no length at the end of another one, and one that ends where a
character of two bytes does. -/
theorem splice_succeeds_iff_adjoining :
    let content := "é: old".toList
    let edits : List Edit := [⟨⟨"f"⟩, 4, 3, "newer", .certain, 1⟩, ⟨⟨"f"⟩, 2, 0, "!", .certain, 1⟩,
      ⟨⟨"f"⟩, 0, 2, "", .ambiguous, 1⟩]
    edits.reverse.Perm edits ∧
    edits.reverse.Pairwise (fun e f => e.offset < f.offset ∨ e.offset = f.offset ∧ e.length ≤ f.length) ∧
    checkClashes edits = .ok () ∧ (edits.map offset).Nodup ∧
    (∀ e ∈ edits, e.stop ≤ width content ∧ isBoundary content e.offset = true ∧
      isBoundary content e.stop = true) ∧
    (∃ result, splice content edits = .ok result) ∧
    (∀ first second, splice content edits ≠ .error (.clash first second)) ∧
    ((∃ result, splice content edits = .ok result) ↔ checkClashes edits = .ok ()) := by
  intro content edits
  have hp : edits.reverse.Perm edits := List.reverse_perm edits
  have hs : edits.reverse.Pairwise
      (fun e f => e.offset < f.offset ∨ e.offset = f.offset ∧ e.length ≤ f.length) := by decide
  have hcheck : checkClashes edits = .ok () := by
    rw [checkClashes_eq_ok_iff]
    unfold Apart
    decide
  have hoff : (edits.map offset).Nodup := by decide
  have hfit : ∀ e ∈ edits, e.stop ≤ width content ∧ isBoundary content e.offset = true ∧
      isBoundary content e.stop = true := by decide
  have hchain : edits.reverse.IsChain fun e f => e.stop ≤ f.offset := by decide
  obtain ⟨hmade, hclash, hcheck'⟩ := splice_succeeds_iff content edits
  exact ⟨hp, hs, hcheck, hoff, hfit, (hmade edits.reverse hp hs).2 ⟨hfit, hchain⟩, hclash hcheck,
    hcheck' hoff hfit⟩

/-- Two texts for one place are both made, though the check refuses them. -/
example : splice "ad".toList [⟨⟨"f"⟩, 1, 0, "b", .certain, 1⟩, ⟨⟨"f"⟩, 1, 0, "c", .certain, 1⟩] =
      .ok "acbd".toList ∧
    checkClashes [⟨⟨"f"⟩, 1, 0, "b", .certain, 1⟩, ⟨⟨"f"⟩, 1, 0, "c", .certain, 1⟩] =
      .error (.clash (1, 1) (1, 1)) :=
  ⟨by cbv, by cbv⟩

end PhpRename.Edit
