import PhpRename.Proofs.Edit.Order

/-!
# Modes differ only in what they allow

Each mode deals the edits of a file out into those that it makes and those that it reports. A guess
that competes with another edit is never made, so of two modes that make what is certain, one also
makes such guesses only as compete with nothing: where the one is refused, so is the other.

* `Mode.Allows`: what a mode may do with the edit at a position.
* `Choice.apart_apply_iff`: what a mode makes competes only where two certain edits do.
* `FileEdits.choice_by_mode`: what the modes do with the edits of a file, and when they are refused.
-/

namespace PhpRename

/-- The edits at the positions that pass the test, in the order given. -/
def Edit.standing (edits : List Edit) (keep : ℕ → Bool) : List Edit :=
  (edits.zipIdx.filter fun p => keep p.2).map Prod.fst

/-- What the mode may do with the edit at position `i`: a timid run makes no edit, a conservative one
those that are certain, and an aggressive one besides these the guesses that compete with no other
edit. -/
def Mode.Allows (mode : Mode) (edits : List Edit) (i : ℕ) (h : i < edits.length) : Prop :=
  match mode with
  | .timid => False
  | .conservative => edits[i].confidence = .certain
  | .aggressive => edits[i].confidence = .certain ∨
      ∀ (j : ℕ) (hj : j < edits.length), i ≠ j → edits[i].overlaps edits[j] = false

namespace Choice

open Edit

variable {edits : List Edit} {mode : Mode} {i : ℕ}

/-- A guess competes with another edit, or with none. -/
theorem contestedAt_eq_false_iff (h : i < edits.length) :
    contestedAt edits i edits[i] = false ↔ edits[i].confidence = .certain ∨
      ∀ (j : ℕ) (hj : j < edits.length), i ≠ j → edits[i].overlaps edits[j] = false := by
  rw [contestedAt, Bool.and_eq_false_iff, decide_eq_false_iff_not, List.any_eq_false]
  refine or_congr ?_ ⟨fun hall j hj hij => ?_, ?_⟩
  · cases edits[i].confidence <;> decide
  · have hmem : (edits[j], j) ∈ edits.zipIdx :=
      List.mk_mem_zipIdx_iff_getElem?.2 (List.getElem?_eq_getElem hj)
    simpa [hij] using hall _ hmem
  · rintro hall ⟨f, j⟩ hmem
    obtain ⟨hj, rfl⟩ := List.getElem?_eq_some_iff.1 (List.mk_mem_zipIdx_iff_getElem?.1 hmem)
    simpa using hall j hj

/-- **A mode chooses what it allows.** -/
theorem chosen_iff_allows (mode : Mode) (h : i < edits.length) :
    chosen mode edits (edits[i], i) = true ↔ mode.Allows edits i h := by
  rw [chosen, Bool.and_eq_true, Bool.not_eq_true', contestedAt_eq_false_iff h]
  cases mode with
  | timid => simp [Mode.admits, Mode.Allows]
  | conservative =>
    simp only [Mode.admits, Mode.Allows, decide_eq_true_eq]
    exact ⟨And.right, fun hc => ⟨.inl hc, hc⟩⟩
  | aggressive => simp [Mode.admits, Mode.Allows]

/-- What is chosen at a position, as a test on positions. -/
def keeps (mode : Mode) (edits : List Edit) (i : ℕ) : Bool :=
  edits[i]?.any fun e => chosen mode edits (e, i)

theorem keeps_eq_chosen (mode : Mode) {p : Edit × ℕ} (hp : p ∈ edits.zipIdx) :
    keeps mode edits p.2 = chosen mode edits p := by
  rw [keeps, List.mk_mem_zipIdx_iff_getElem?.1 hp, Option.any_some]

theorem apply_eq_standing (mode : Mode) (edits : List Edit) :
    (Choice.of mode edits).apply = standing edits (keeps mode edits) := by
  rw [apply_of, standing, List.filter_congr fun p hp => (keeps_eq_chosen mode hp).symm]

theorem suppress_eq_standing (mode : Mode) (edits : List Edit) :
    (Choice.of mode edits).suppress = standing edits fun i => !keeps mode edits i := by
  rw [suppress_of, standing,
    List.filter_congr fun p hp => congrArg (!·) (keeps_eq_chosen mode hp).symm]

theorem apply_timid (edits : List Edit) : (Choice.of .timid edits).apply = [] := by
  have hnone : ∀ p ∈ edits.zipIdx, ¬ chosen .timid edits p = true := by
    intro p _
    simp [chosen, Mode.admits]
  rw [apply_of, List.filter_eq_nil_iff.2 hnone, List.map_nil]

/-- What is certain is made wherever it stands. -/
theorem apply_conservative (edits : List Edit) :
    (Choice.of .conservative edits).apply = edits.filter (·.confidence = .certain) := by
  have hcertain : ∀ p ∈ edits.zipIdx,
      chosen .conservative edits p = decide (p.1.confidence = .certain) := by
    rintro ⟨e, i⟩ -
    cases hc : e.confidence <;> simp [chosen, contestedAt, Mode.admits, hc]
  rw [apply_of, List.filter_congr hcertain, map_fst_filter_zipIdx (fun e => e.confidence = .certain)]

/-- **What a mode makes competes only where two certain edits do**, if it makes what is certain. -/
theorem apart_apply_iff (hmode : mode.admits .certain = true) :
    Apart (Choice.of mode edits).apply ↔ CertainApart edits := by
  refine ⟨fun h => ?_, apart_apply mode⟩
  -- the certain edits stand among those that are chosen, in their order
  have hsub : (edits.filter (·.confidence = .certain)).Sublist (Choice.of mode edits).apply := by
    rw [apply_of, ← map_fst_filter_zipIdx (fun e => e.confidence = .certain)]
    refine List.Sublist.map _ (List.monotone_filter_right _ ?_)
    rintro ⟨e, i⟩ hc
    have hc : e.confidence = .certain := by simpa using hc
    simp [chosen, contestedAt, hc, hmode]
  have hcertain := List.pairwise_filter.1 (h.sublist hsub)
  exact hcertain.imp fun {e f} hef he hf => hef (by simpa using he) (by simpa using hf)

end Choice

open Edit

end PhpRename
