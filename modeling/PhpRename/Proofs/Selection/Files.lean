import Mathlib.Data.List.Pairwise
import PhpRename.Proofs.Path.Parts
import PhpRename.Selection

/-!
# Selected files

* `Selection.pairwise_files`: each file is selected once, however its path is spelled.
-/

namespace PhpRename

/-- Of some paths the first one stays, and the ones that differ from it are gone through. -/
theorem Path.eraseDups_induction {motive : List Path → Prop} (nil : motive [])
    (cons : ∀ p ps, motive (ps.filter fun q => !q == p) → motive (p :: ps)) (ps : List Path) :
    motive ps := by
  induction hn : ps.length using Nat.strongRecOn generalizing ps with
  | ind n ih =>
    cases ps with
    | nil => exact nil
    | cons p ps =>
      have hlen : (ps.filter fun q => !q == p).length < n := by
        have := List.length_filter_le (fun q => !q == p) ps
        rw [List.length_cons] at hn
        omega
      exact cons p ps (ih _ hlen _ rfl)

theorem Path.mem_of_mem_eraseDups {p : Path} {ps : List Path} (h : p ∈ ps.eraseDups) : p ∈ ps := by
  induction ps using Path.eraseDups_induction with
  | nil => cases h
  | cons q ps ih =>
    rw [List.eraseDups_cons] at h
    rcases List.mem_cons.1 h with rfl | h
    · exact List.mem_cons_self
    · exact List.mem_cons_of_mem _ (List.mem_filter.1 (ih h)).1

/-- Of each path one that is equal to it stays. -/
theorem Path.exists_mem_eraseDups {p : Path} {ps : List Path} (h : p ∈ ps) :
    ∃ q ∈ ps.eraseDups, (q == p) = true := by
  induction ps using Path.eraseDups_induction with
  | nil => cases h
  | cons q ps ih =>
    rw [List.eraseDups_cons]
    by_cases hq : (q == p) = true
    · exact ⟨q, List.mem_cons_self, hq⟩
    have hmem : p ∈ ps := by
      rcases List.mem_cons.1 h with rfl | hmem
      · exact absurd (Path.beq_iff.2 rfl) hq
      · exact hmem
    have hdiffers : (!p == q) = true := by
      rw [Bool.not_eq_true', Bool.eq_false_iff, ne_eq, Path.beq_iff]
      exact fun he => hq (Path.beq_iff.2 he.symm)
    obtain ⟨r, hr, heq⟩ := ih (List.mem_filter.2 ⟨hmem, hdiffers⟩)
    exact ⟨r, List.mem_cons_of_mem _ hr, heq⟩

/-- Of paths that are equal only the first one stays. -/
theorem Path.pairwise_eraseDups (ps : List Path) :
    ps.eraseDups.Pairwise fun p q => (p == q) = false := by
  induction ps using Path.eraseDups_induction with
  | nil => exact .nil
  | cons p ps ih =>
    rw [List.eraseDups_cons, List.pairwise_cons]
    refine ⟨fun q hq => ?_, ih⟩
    have hne := (List.mem_filter.1 (Path.mem_of_mem_eraseDups hq)).2
    rw [Bool.not_eq_true', Bool.eq_false_iff, ne_eq, Path.beq_iff] at hne
    rw [Bool.eq_false_iff, ne_eq, Path.beq_iff]
    exact fun he => hne he.symm

/-- **Each file is selected once**, however its path is spelled. -/
theorem Selection.pairwise_files (s : Selection) (d : Disk) (paths : List Path) :
    (s.files d paths).Pairwise fun p q => (p == q) = false :=
  Path.pairwise_eraseDups _

/-- A selected file is known by what its path names. -/
theorem Selection.eq_of_beq {s : Selection} {d : Disk} {paths : List Path} {p q : Path}
    (hp : p ∈ s.files d paths) (hq : q ∈ s.files d paths) (h : (p == q) = true) : p = q := by
  have hsymm : Std.Symm fun p q : Path => (p == q) = false :=
    ⟨fun p q hpq => by
      rw [Bool.eq_false_iff, ne_eq, Path.beq_iff] at *
      exact fun he => hpq he.symm⟩
  by_contra hne
  have hfalse := (s.pairwise_files d paths).forall hp hq hne
  rw [h] at hfalse
  cases hfalse

end PhpRename
