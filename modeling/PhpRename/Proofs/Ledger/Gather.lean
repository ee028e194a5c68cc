import PhpRename.Ledger.Basic
import PhpRename.Proofs.Edit.Choice
import PhpRename.Proofs.Edit.Merge
import PhpRename.Proofs.Ordered
import PhpRename.Proofs.Path.Parts

/-!
# What a ledger gathers

The edits of a file in the ledger make different changes, and each of them was proposed for that
file, with the confidence that it has.

* `FileEdits.Gathered`: this, for the edits of one file.
* `FileEdits.Gathered.certainApart`, `FileEdits.Gathered.apart`: what is certain, or all of it, does
  not compete, if it does not among the proposals.
* `Ledger.gathered_foldl_addEdit`: it holds of all files once proposals have been added.
* `Ledger.Filed`: each file has its edits in one place.
* `Ledger.changes_foldl_addEdit`: from no edits, the ledger gets the files proposed for, in order,
  each with what was proposed for it, merged.
-/

namespace PhpRename

variable {P : Edit → Prop} {s : FileEdits} {e : Edit}

/-- The edits of a file make different changes, and each comes from a proposal for that file. -/
structure FileEdits.Gathered (P : Edit → Prop) (s : FileEdits) : Prop where
  distinct : Edit.Distinct s.edits
  origin : ∀ x ∈ s.edits, Edit.ComesFrom (fun e => P e ∧ (e.file == s.path) = true) x

namespace FileEdits

theorem gathered_new (P : Edit → Prop) (p : Path) : (FileEdits.new p).Gathered P :=
  ⟨.nil, by simp [FileEdits.new]⟩

theorem gathered_push (h : s.Gathered P) (he : P e) (hp : (e.file == s.path) = true) :
    (s.push e).Gathered P :=
  ⟨Edit.distinct_insertInto e h.distinct, Edit.comesFrom_insertInto h.origin ⟨he, hp⟩⟩

/-- **Merging brings no competition**: if the proposals for one file, of certain confidences, make
the same change or do not compete, the merged edits of these confidences do not compete. -/
theorem Gathered.pairwise (h : s.Gathered P) {K : Confidence → Prop}
    (hP : ∀ e f, P e → P f → (e.file == f.file) = true → K e.confidence → K f.confidence →
      e.sameChange f = true ∨ e.overlaps f = false) :
    s.edits.Pairwise fun x y => K x.confidence → K y.confidence → x.overlaps y = false := by
  refine List.Pairwise.imp_of_mem ?_ h.distinct
  intro x y hx hy hxy hxc hyc
  obtain ⟨e, ⟨he, hefile⟩, hex, hec⟩ := h.origin x hx
  obtain ⟨f, ⟨hf, hffile⟩, hfy, hfc⟩ := h.origin y hy
  have hfile := Path.beq_of_beq_of_beq hefile hffile
  rcases hP e f he hf hfile (by rwa [hec]) (by rwa [hfc]) with hsame | hapart
  · -- then the merged edits would make the same change
    have hxe : x.sameChange e = true := Edit.sameChange_symm hex
    rw [Edit.sameChange_trans hxe (Edit.sameChange_trans hsame hfy)] at hxy
    cases hxy
  · rwa [← Edit.overlaps_congr hex hfy]

/-- If the proposals for one file that are certain do not compete, neither do the merged edits that
are certain. -/
theorem Gathered.certainApart (h : s.Gathered P)
    (hP : ∀ e f, P e → P f → (e.file == f.file) = true → e.confidence = .certain →
      f.confidence = .certain → e.sameChange f = true ∨ e.overlaps f = false) :
    Edit.CertainApart s.edits :=
  h.pairwise (K := (· = .certain)) hP

/-- If no proposals for one file compete, neither do the merged edits. -/
theorem Gathered.apart (h : s.Gathered P)
    (hP : ∀ e f, P e → P f → (e.file == f.file) = true →
      e.sameChange f = true ∨ e.overlaps f = false) : Edit.Apart s.edits :=
  (h.pairwise (K := fun _ => True) fun e f he hf hfile _ _ => hP e f he hf hfile).imp
    fun h => h trivial trivial

end FileEdits

namespace Ledger

variable {changes : List FileEdits} {l : Ledger} {edits : List Edit}

theorem gathered_insertEdit (h : ∀ s ∈ changes, s.Gathered P) (he : P e) :
    ∀ s ∈ insertEdit e changes, s.Gathered P := by
  have hfresh : ((FileEdits.new e.file).push e).Gathered P :=
    FileEdits.gathered_push (FileEdits.gathered_new P e.file) he (Path.beq_iff.2 rfl)
  induction changes with
  | nil => exact List.forall_mem_cons.2 ⟨hfresh, h⟩
  | cons s rest ih =>
    obtain ⟨hs, hrest⟩ := List.forall_mem_cons.1 h
    rw [insertEdit]
    split
    · exact List.forall_mem_cons.2 ⟨hfresh, h⟩
    · rename_i hcmp
      exact List.forall_mem_cons.2
        ⟨FileEdits.gathered_push hs he (Path.compare_eq_iff.1 hcmp), hrest⟩
    · exact List.forall_mem_cons.2 ⟨hs, ih hrest⟩

/-- **What a ledger has gathered was proposed.** -/
theorem gathered_foldl_addEdit (h : ∀ s ∈ l.changes, s.Gathered P) (he : ∀ e ∈ edits, P e) :
    ∀ s ∈ (edits.foldl addEdit l).changes, s.Gathered P := by
  induction edits generalizing l with
  | nil => exact h
  | cons e edits ih =>
    obtain ⟨hhead, htail⟩ := List.forall_mem_cons.1 he
    exact ih (gathered_insertEdit h hhead) htail

/-- Proposals change nothing but the edits of files. -/
theorem foldl_addEdit (edits : List Edit) (l : Ledger) :
    edits.foldl addEdit l = { l with changes := (edits.foldl addEdit l).changes } := by
  induction edits generalizing l with
  | nil => rfl
  | cons e edits ih => rw [List.foldl_cons, ih]; rfl

theorem changes_foldl_addEdit_congr {l' : Ledger} (h : l'.changes = l.changes)
    (edits : List Edit) : (edits.foldl addEdit l').changes = (edits.foldl addEdit l).changes := by
  induction edits generalizing l l' with
  | nil => exact h
  | cons e edits ih => exact ih (congrArg (insertEdit e) h)

/-! ## One entry for each file -/

/-- The files are in order, so each has its edits in one place. -/
def Filed (l : Ledger) : Prop :=
  Ordered.Ascending (l.changes.map FileEdits.path)

theorem map_path_insertEdit (e : Edit) (changes : List FileEdits) :
    (insertEdit e changes).map FileEdits.path =
      Ordered.insert e.file (changes.map FileEdits.path) := by
  induction changes with
  | nil => rfl
  | cons s rest ih =>
    rw [insertEdit, List.map_cons, Ordered.insert]
    cases compare e.file s.path with
    | lt => rfl
    | eq => rfl
    | gt => exact congrArg (s.path :: ·) ih

theorem filed_of_changes_eq_nil (h : l.changes = []) : l.Filed := by
  rw [Filed, h]
  exact .nil

theorem Filed.addEdit (h : l.Filed) (e : Edit) : (l.addEdit e).Filed := by
  rw [Filed, Ledger.addEdit, map_path_insertEdit]
  exact Ordered.ascending_insert h e.file

theorem Filed.foldl_addEdit (h : l.Filed) (edits : List Edit) : (edits.foldl Ledger.addEdit l).Filed := by
  induction edits generalizing l with
  | nil => exact h
  | cons e edits ih => exact ih (h.addEdit e)

/-! ## From no edits -/

/-- What is proposed for a file, merged. -/
def editsOf (edits : List Edit) (p : Path) : FileEdits :=
  ⟨p, Edit.merged (edits.filter (·.file == p))⟩

theorem editsOf_concat_of_eq {p : Path} (h : compare e.file p = .eq) (edits : List Edit) :
    editsOf (edits ++ [e]) p = (editsOf edits p).push e := by
  have hkeep : [e].filter (·.file == p) = [e] :=
    List.filter_cons_of_pos (Path.compare_eq_iff.1 h)
  rw [editsOf, List.filter_append, hkeep, Edit.merged_concat]
  rfl

theorem editsOf_concat_of_ne {p : Path} (h : compare e.file p ≠ .eq) (edits : List Edit) :
    editsOf (edits ++ [e]) p = editsOf edits p := by
  have hdrop : [e].filter (·.file == p) = [] :=
    List.filter_cons_of_neg fun he => h (Path.compare_eq_iff.2 he)
  rw [editsOf, List.filter_append, hdrop, List.append_nil]
  rfl

/-- A further edit goes to its file, wherever that stands in order. `hnew` says what becomes of a
file that is not there yet. -/
theorem insertEdit_map_editsOf {s : List Path} (hs : Ordered.Ascending s)
    (hnew : (∀ p ∈ s, compare e.file p ≠ .eq) →
      editsOf (edits ++ [e]) e.file = (FileEdits.new e.file).push e) :
    insertEdit e (s.map (editsOf edits)) = (Ordered.insert e.file s).map (editsOf (edits ++ [e])) := by
  -- the files behind one that does not sort before the edit's file are not the edit's
  have hbehind : ∀ (z : Path) (s : List Path), (∀ p ∈ s, compare z p = .lt) →
      (compare e.file z).isLE = true → ∀ p ∈ s, compare e.file p ≠ .eq := by
    intro z s hz hle p hp heq
    rw [Std.TransCmp.lt_of_isLE_of_lt hle (hz p hp)] at heq
    cases heq
  have hmap : ∀ s : List Path, (∀ p ∈ s, compare e.file p ≠ .eq) →
      s.map (editsOf edits) = s.map (editsOf (edits ++ [e])) := fun s hne =>
    List.map_congr_left fun p hp => (editsOf_concat_of_ne (hne p hp) edits).symm
  induction s with
  | nil =>
    rw [Ordered.insert, List.map_singleton, hnew (by simp)]
    rfl
  | cons z s ih =>
    obtain ⟨hz, hrest⟩ := List.pairwise_cons.1 hs
    have hpath : (editsOf edits z).path = z := rfl
    rw [List.map_cons, insertEdit, Ordered.insert, hpath]
    cases hcmp : compare e.file z with
    | lt =>
      have hall : ∀ p ∈ z :: s, compare e.file p ≠ .eq :=
        List.forall_mem_cons.2 ⟨by rw [hcmp]; decide, hbehind z s hz (by rw [hcmp]; rfl)⟩
      dsimp only
      rw [List.map_cons, hnew hall, ← hmap _ hall, List.map_cons]
    | eq =>
      dsimp only
      rw [List.map_cons, editsOf_concat_of_eq hcmp, hmap s (hbehind z s hz (by rw [hcmp]; rfl))]
    | gt =>
      have hne : compare e.file z ≠ .eq := by rw [hcmp]; decide
      dsimp only
      rw [List.map_cons, editsOf_concat_of_ne hne, ih hrest]
      exact fun hall => hnew (List.forall_mem_cons.2 ⟨hne, hall⟩)

/-- **What is gathered from no edits.** -/
theorem changes_foldl_addEdit (hl : l.changes = []) (edits : List Edit) :
    (edits.foldl addEdit l).changes =
      (Ordered.ofList (edits.map Edit.file)).map (editsOf edits) := by
  induction edits using List.reverseRecOn with
  | nil => exact hl
  | append_singleton edits e ih =>
    rw [List.foldl_append, List.foldl_cons, List.foldl_nil, addEdit, ih, List.map_append,
      List.map_singleton, Ordered.ofList_concat]
    refine insertEdit_map_editsOf (Ordered.ascending_ofList _) fun hnew => ?_
    have hnone : edits.filter (·.file == e.file) = [] := by
      refine List.filter_eq_nil_iff.2 fun f hf hfe => ?_
      -- the file of such an edit would be in the ledger
      obtain ⟨p, hp, hfp⟩ := Ordered.exists_mem_ofList (List.mem_map_of_mem (f := Edit.file) hf)
      refine hnew p hp ?_
      rw [Path.compare_eq_iff, Path.beq_iff, ← Path.beq_iff.1 hfe]
      exact Path.beq_iff.1 (Path.compare_eq_iff.1 hfp)
    rw [editsOf_concat_of_eq Std.ReflCmp.compare_self, editsOf, hnone]
    rfl

end Ledger

end PhpRename
