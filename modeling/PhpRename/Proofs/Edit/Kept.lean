import Mathlib.Data.List.Forall2
import PhpRename.Proofs.Edit.Merge

/-!
# Each change is kept once

Edits are pushed one by one. An edit whose change is new goes to the end; else the edit that is kept
of its change may become certain, and nothing moves. So what is kept stands in the order in which the
changes were first pushed.

* `insertInto_of_new`, `forall₂_insertInto_of_known`: the two ways in which an edit is added.
* `Edit.FirstAt`: the edit was pushed there, and its change had not been pushed before.
* `FileEdits.changes_kept_once`: what is kept of any edits that are pushed.
-/

namespace PhpRename

namespace Edit

variable {e f x : Edit} {edits pushed : List Edit} {positions : List ℕ} {i : ℕ}

/-- What the edit does: where, to how many bytes, and what comes in their place. -/
def change (e : Edit) : Nat × Nat × String :=
  (e.offset, e.length, e.replacement)

theorem sameChange_iff_change : e.sameChange f = true ↔ e.change = f.change := by
  rw [sameChange_iff, change, change, Prod.mk.injEq, Prod.mk.injEq]

theorem sameChange_eq_false_iff : e.sameChange f = false ↔ e.change ≠ f.change := by
  rw [← Bool.not_eq_true, sameChange_iff_change]

/-! ## One more edit -/

theorem insertInto_of_new (h : ∀ x ∈ edits, x.sameChange e = false) :
    insertInto e edits = edits ++ [e] := by
  induction edits with
  | nil => rfl
  | cons x edits ih =>
    obtain ⟨hx, hrest⟩ := List.forall_mem_cons.1 h
    rw [insertInto_cons_of_ne edits hx, ih hrest, List.cons_append]

/-- An edit whose change is known moves nothing. What holds of the edits, each with its position, and
does not depend on confidences, holds afterwards. -/
theorem forall₂_insertInto_of_known {R : ℕ → Edit → Prop} (hR : ∀ i x, R i x → R i (x.raisedBy e))
    (h : List.Forall₂ R positions edits) (hknown : ∃ x ∈ edits, x.sameChange e = true) :
    List.Forall₂ R positions (insertInto e edits) := by
  induction h with
  | nil =>
    obtain ⟨x, hx, -⟩ := hknown
    cases hx
  | @cons i x positions edits hx hrest ih =>
    cases hsame : x.sameChange e with
    | true =>
      rw [insertInto_cons_of_same edits hsame]
      exact .cons (hR i x hx) hrest
    | false =>
      have hknown' : ∃ y ∈ edits, y.sameChange e = true := by
        obtain ⟨y, hy, hye⟩ := hknown
        rcases List.mem_cons.1 hy with rfl | hy
        · rw [hsame] at hye
          cases hye
        · exact ⟨y, hy, hye⟩
      rw [insertInto_cons_of_ne edits hsame]
      exact .cons hx (ih hknown')

/-! ## All edits -/

/-- At position `i` an edit was pushed that is in this file and on this line, and its change had not
been pushed before. -/
structure FirstAt (pushed : List Edit) (i : ℕ) (x : Edit) : Prop where
  there : ∃ e, pushed[i]? = some e ∧ e.change = x.change ∧ e.file = x.file ∧ e.line = x.line
  first : ∀ j < i, ∀ e, pushed[j]? = some e → e.change ≠ x.change

theorem FirstAt.lt (h : FirstAt pushed i x) : i < pushed.length := by
  obtain ⟨e, he, -⟩ := h.there
  exact (List.getElem?_eq_some_iff.1 he).1

theorem FirstAt.raisedBy (h : FirstAt pushed i x) (e : Edit) : FirstAt pushed i (x.raisedBy e) :=
  ⟨h.there, h.first⟩

/-- What was pushed first stays so, whatever is pushed later. -/
theorem FirstAt.concat (h : FirstAt pushed i x) (e : Edit) : FirstAt (pushed ++ [e]) i x := by
  have hi := h.lt
  obtain ⟨f, hf, hfx⟩ := h.there
  refine ⟨⟨f, by rw [List.getElem?_append_left hi, hf], hfx⟩, fun j hj g hg => ?_⟩
  rw [List.getElem?_append_left (by omega)] at hg
  exact h.first j hj g hg

/-- An edit is the first one with its change if no such edit has been kept. -/
theorem firstAt_length (h : ∀ x ∈ merged pushed, x.sameChange e = false) :
    FirstAt (pushed ++ [e]) pushed.length e := by
  refine ⟨⟨e, List.getElem?_concat_length, rfl, rfl, rfl⟩, fun j hj f hf hfe => ?_⟩
  rw [List.getElem?_append_left hj] at hf
  -- an earlier edit with the change would have been kept
  obtain ⟨x, hx, hxf⟩ := exists_mem_merged (List.mem_of_getElem? hf)
  have hxe := sameChange_trans hxf (sameChange_iff_change.2 hfe)
  rw [h x hx] at hxe
  cases hxe

/-- **What is kept stands in the order of the first pushes.** The induction is on the edits from the
end; an edit that is new is pushed behind all positions so far. -/
theorem exists_positions_merged (pushed : List Edit) : ∃ positions : List ℕ,
    positions.Pairwise (· < ·) ∧ List.Forall₂ (FirstAt pushed) positions (merged pushed) := by
  induction pushed using List.reverseRecOn with
  | nil => exact ⟨[], .nil, .nil⟩
  | append_singleton pushed e ih =>
    obtain ⟨positions, hasc, hfirst⟩ := ih
    have hkept : List.Forall₂ (FirstAt (pushed ++ [e])) positions (merged pushed) :=
      hfirst.imp fun i x h => h.concat e
    rw [merged_concat]
    by_cases hknown : ∃ x ∈ merged pushed, x.sameChange e = true
    · exact ⟨positions, hasc,
        forall₂_insertInto_of_known (fun i x h => h.raisedBy e) hkept hknown⟩
    · have hnew : ∀ x ∈ merged pushed, x.sameChange e = false := by
        intro x hx
        exact Bool.eq_false_iff.2 fun hxe => hknown ⟨x, hx, hxe⟩
      have hbelow : ∀ i ∈ positions, i < pushed.length :=
        ((List.forall₂_and_left _ _).1 (hfirst.imp fun i x h => ⟨h.lt, h⟩)).1
      refine ⟨positions ++ [pushed.length], ?_, ?_⟩
      · rw [List.pairwise_append]
        exact ⟨hasc, List.pairwise_singleton .., by simpa using hbelow⟩
      · rw [insertInto_of_new hnew]
        exact List.rel_append hkept (.cons (firstAt_length hnew) .nil)

end Edit

open Edit

/-- **Each change is kept once.** Whatever edits are pushed for a file, and however often one change
is among them, the edits that are kept make different changes, and these are the changes that were
pushed. They stand in the order in which their changes were first pushed, each with the file and the
line of that first push, and an edit is certain if and only if its change was ever pushed as
certain. -/
theorem FileEdits.changes_kept_once (path : Path) (pushed : List Edit) :
    let kept := (pushed.foldl FileEdits.push (FileEdits.new path)).edits
    (kept.map change).Nodup ∧
    (∀ c, c ∈ kept.map change ↔ c ∈ pushed.map change) ∧
    (∀ x ∈ kept, x.confidence = .certain ↔
      ∃ e ∈ pushed, e.change = x.change ∧ e.confidence = .certain) ∧
    ∃ positions : List ℕ, positions.Pairwise (· < ·) ∧
      List.Forall₂ (FirstAt pushed) positions kept := by
  intro kept
  have hkept : kept = merged pushed := edits_foldl_push pushed path
  rw [hkept]
  refine ⟨?_, fun c => ⟨fun hc => ?_, fun hc => ?_⟩, fun x hx => ?_, exists_positions_merged pushed⟩
  · rw [List.Nodup, List.pairwise_map]
    exact (distinct_merged pushed).imp sameChange_eq_false_iff.1
  · obtain ⟨x, hx, rfl⟩ := List.mem_map.1 hc
    obtain ⟨⟨e, he, hex, -⟩, -⟩ := mem_merged hx
    exact List.mem_map.2 ⟨e, he, sameChange_iff_change.1 hex⟩
  · obtain ⟨e, he, rfl⟩ := List.mem_map.1 hc
    obtain ⟨x, hx, hxe⟩ := exists_mem_merged he
    exact List.mem_map.2 ⟨x, hx, sameChange_iff_change.1 hxe⟩
  · simp only [← sameChange_iff_change]
    exact (mem_merged hx).2

/-- The doubt about the second change is gone, and it stays behind the first one. -/
example : merged [⟨⟨"f"⟩, 8, 3, "new", .ambiguous, 2⟩, ⟨⟨"f"⟩, 0, 3, "new", .ambiguous, 1⟩,
      ⟨⟨"g"⟩, 0, 3, "new", .certain, 7⟩] =
    [⟨⟨"f"⟩, 8, 3, "new", .ambiguous, 2⟩, ⟨⟨"f"⟩, 0, 3, "new", .certain, 1⟩] := rfl

end PhpRename
