import PhpRename.Proofs.Edit.Order
import PhpRename.Proofs.Edit.Splice
import PhpRename.Proofs.Ledger.Enact
import PhpRename.Proofs.Ledger.Gather

/-!
# What comes of proposals does not depend on their order

Merging keeps of each change the place of the first proposal, so a ledger does remember in which
order the edits of a file were proposed. Nothing that is done with the edits does: a mode chooses
the same ones, the check finds the same two ranges, and the text that comes of edits that passed it
is the same.

* `choices_foldl_addEdit`: the choices of a ledger that proposals were added to, file by file.
* `alike_editsOf`: for proposals in another order they are alike.
* `enact_perm`: the outcome is the same.
-/

namespace PhpRename

open Edit Choice

variable {edits edits' : List Edit} {e f : Edit} {c c' : Choice} {files : List Path}
  {C C' : Path → Choice} {l : Ledger}

theorem Disk.edit_perm (d : Disk) (file : Path) (h : Apart edits) (hp : edits.Perm edits') :
    d.edit file edits = d.edit file edits' := by
  rw [Disk.edit, Disk.edit]
  cases d.read file with
  | error fault => rfl
  | ok content =>
    dsimp only
    rw [splice_perm h hp.symm]

namespace Ledger

/-! ## Choices that are alike -/

theorem applyChoice_of_alike (h : Alike c c') (ha : Apart c.apply) (p : Progress) (file : Path) :
    applyChoice p (file, c) = applyChoice p (file, c') := by
  obtain ⟨happly, hsuppress⟩ := h
  unfold applyChoice
  simp only [happly.isEmpty_eq, happly.length_eq, hsuppress.length_eq,
    Disk.edit_perm _ file ha happly]

theorem firstClash?_of_alike (h : ∀ p ∈ files, Alike (C p) (C' p)) :
    firstClash? (files.map fun p => (p, C p)) = firstClash? (files.map fun p => (p, C' p)) := by
  induction files with
  | nil => rfl
  | cons file files ih =>
    obtain ⟨hfile, hrest⟩ := List.forall_mem_cons.1 h
    rw [List.map_cons, List.map_cons, firstClash?, firstClash?, checkClashes_perm hfile.1, ih hrest]

theorem foldl_applyChoice_of_alike (h : ∀ p ∈ files, Alike (C p) (C' p))
    (ha : ∀ p ∈ files, Apart (C p).apply) (p : Progress) :
    (files.map fun p => (p, C p)).foldl applyChoice p =
      (files.map fun p => (p, C' p)).foldl applyChoice p := by
  induction files generalizing p with
  | nil => rfl
  | cons file files ih =>
    obtain ⟨hfile, hrest⟩ := List.forall_mem_cons.1 h
    obtain ⟨hafile, harest⟩ := List.forall_mem_cons.1 ha
    rw [List.map_cons, List.map_cons, List.foldl_cons, List.foldl_cons,
      applyChoice_of_alike hfile hafile, ih hrest harest]

theorem noticesOf_of_alike (h : ∀ p ∈ files, Alike (C p) (C' p)) :
    noticesOf (files.map fun p => (p, C p)) = noticesOf (files.map fun p => (p, C' p)) := by
  rw [noticesOf, noticesOf, List.filterMap_map, List.filterMap_map]
  refine List.filterMap_congr fun p hp => ?_
  have hsuppress := (h p hp).2
  dsimp only [Function.comp]
  rw [hsuppress.isEmpty_eq, Ordered.ofList_perm (fun _ _ _ _ => Std.LawfulEqOrd.eq_of_compare)
    (hsuppress.map Edit.line)]

/-! ## Proposals in another order -/

theorem choices_foldl_addEdit (hl : l.changes = []) (edits : List Edit) :
    (edits.foldl addEdit l).choices =
      (Ordered.ofList (edits.map Edit.file)).map fun p => (p, (editsOf edits p).choice l.mode) := by
  have hmode : (edits.foldl addEdit l).mode = l.mode := by rw [foldl_addEdit]; rfl
  rw [choices, changes_foldl_addEdit hl, hmode, List.map_map]
  rfl

/-- Edits at one place of a file are on one line, and equal paths are spelled the same. -/
structure WellSpelled (edits : List Edit) : Prop where
  line : ∀ e ∈ edits, ∀ f ∈ edits, (e.file == f.file) = true → e.offset = f.offset → e.line = f.line
  spelling : ∀ e ∈ edits, ∀ f ∈ edits, (e.file == f.file) = true →
    e.file.spelling = f.file.spelling

theorem WellSpelled.file_eq (h : WellSpelled edits) (he : e ∈ edits) (hf : f ∈ edits)
    (hef : (e.file == f.file) = true) : e.file = f.file :=
  congrArg Path.mk (h.spelling e he f hf hef)

theorem WellSpelled.coherent (h : WellSpelled edits) (p : Path) :
    Coherent (edits.filter (·.file == p)) := by
  intro e he f hf hsame
  obtain ⟨he, hep⟩ := List.mem_filter.1 he
  obtain ⟨hf, hfp⟩ := List.mem_filter.1 hf
  have hef := Path.beq_of_beq_of_beq hep hfp
  exact ⟨h.file_eq he hf hef, h.line e he f hf hef (sameChange_iff.1 hsame).1⟩

theorem WellSpelled.files_perm (h : WellSpelled edits) (hp : edits.Perm edits') :
    Ordered.ofList (edits.map Edit.file) = Ordered.ofList (edits'.map Edit.file) := by
  refine Ordered.ofList_perm ?_ (hp.map Edit.file)
  intro p hp q hq heq
  obtain ⟨e, he, rfl⟩ := List.mem_map.1 hp
  obtain ⟨f, hf, rfl⟩ := List.mem_map.1 hq
  exact h.file_eq he hf (Path.compare_eq_iff.1 heq)

/-- **The choice for a file does not depend on the order** of the proposals. -/
theorem alike_editsOf (h : WellSpelled edits) (hp : edits.Perm edits') (mode : Mode) (p : Path) :
    Alike ((editsOf edits p).choice mode) ((editsOf edits' p).choice mode) :=
  alike_of_perm mode (distinct_merged _) (distinct_merged _) (merged_perm (h.coherent p) (hp.filter _))

/-- **The outcome does not depend on the order of the proposals.** Added in any order to a ledger
that holds no edits yet, they are refused on every disk for the same two ranges of the same file, or
lead to the same disk, the same report and the same ledger, but for the order in which that lists
the edits of a file. -/
theorem enact_perm (hl : l.changes = []) (h : WellSpelled edits) (hp : edits.Perm edits')
    (d : Disk) :
    let r := (edits.foldl addEdit l).enact d
    let r' := (edits'.foldl addEdit l).enact d
    ({ r.1 with changes := [] }, r.2) = ({ r'.1 with changes := [] }, r'.2) := by
  intro r r'
  -- the two ledgers hold the same files in the same order, and the choices for each are alike
  have halike : ∀ p ∈ Ordered.ofList (edits.map Edit.file), Alike _ _ :=
    fun p _ => alike_editsOf h hp l.mode p
  have hchoices := choices_foldl_addEdit hl edits
  have hchoices' := choices_foldl_addEdit hl edits'
  rw [← h.files_perm hp] at hchoices'
  have hclash : firstClash? (edits.foldl addEdit l).choices =
      firstClash? (edits'.foldl addEdit l).choices := by
    rw [hchoices, hchoices', firstClash?_of_alike halike]
  simp only [r, r']
  rw [enact, enact, ← hclash]
  cases hnone : firstClash? (edits.foldl addEdit l).choices with
  | some failure => rw [foldl_addEdit edits l, foldl_addEdit edits' l]
  | none =>
    -- nothing that is chosen competes, so it comes to the same text in any order
    have hapart := firstClash?_eq_none_iff.1 hnone
    rw [hchoices, List.forall_mem_map] at hapart
    have hedited := foldl_applyChoice_of_alike halike hapart (Progress.start d)
    have hnotices := noticesOf_of_alike halike
    rw [← hchoices, ← hchoices'] at hedited hnotices
    dsimp only
    rw [hedited, hnotices, foldl_addEdit edits l, foldl_addEdit edits' l]
    rfl

/-- Edits of two files, last first. The same change is proposed twice, and another one for its
place. -/
theorem enact_perm_reverse :
    let edits : List Edit := [⟨⟨"/b"⟩, 0, 3, "new", .ambiguous, 1⟩, ⟨⟨"/a"⟩, 4, 0, "!", .certain, 2⟩,
      ⟨⟨"/b"⟩, 0, 3, "neu", .ambiguous, 1⟩, ⟨⟨"/b"⟩, 0, 3, "new", .certain, 1⟩]
    let d : Disk := ⟨[], [(["a"], .file (.text "one\ntwo") true), (["b"], .file (.text "old") true)]⟩
    let r := (edits.foldl addEdit .new).enact d
    let r' := (edits.reverse.foldl addEdit .new).enact d
    WellSpelled edits ∧ ({ r.1 with changes := [] }, r.2) = ({ r'.1 with changes := [] }, r'.2) := by
  intro edits d r r'
  have h : WellSpelled edits := ⟨by decide, by decide⟩
  exact ⟨h, enact_perm rfl h (List.reverse_perm edits).symm d⟩

end Ledger

end PhpRename
