import PhpRename.Proofs.Path.Relation

/-!
# Normal forms of paths

What is left of a path when its `.` and `..` are resolved leads up before it leads down, and never up
from the root. It is its own normal form, and what is read from a directory depends on the normal form
of that alone.

* `reduced_normalize`: the form of a normal path.
* `Reduced.normalParts_eq`: parts in this form are left as they are.
* `normalParts_parts_join`: what a path means that is read from a directory.
* `normalize_canonical`: **normalizing is canonical and compositional**.
-/

namespace PhpRename.Path

variable {p q : Path} {ps : List Part}

/-! ## The form -/

/-- Steps up and then names, or the root and then names. -/
inductive Reduced : List Part → Prop
  | relative (ups : Nat) {names : List Part} (h : AreNames names) :
      Reduced (List.replicate ups Part.up ++ names)
  | absolute {names : List Part} (h : AreNames names) : Reduced (Part.root :: names)

/-- **The form of a normal path.** -/
theorem reduced_normalize (p : Path) : Reduced p.normalize.parts := by
  cases habs : p.isAbsolute with
  | true =>
    obtain ⟨names, hnames, hparts⟩ := rooted_normalize habs
    rw [hparts]
    exact .absolute hnames
  | false =>
    obtain ⟨ups, names, hleads⟩ := exists_leads habs
    rw [parts_normalize, hleads.normal]
    exact .relative ups hleads.areNames

namespace Reduced

variable (h : Reduced ps)

include h

/-- **Parts in the form are left as they are.** -/
theorem normalParts_eq : normalParts ps = ps := by
  cases h with
  | absolute hnames => exact Rooted.normalParts ⟨_, hnames, rfl⟩
  | relative ups hnames => rw [normalParts_append_names _ hnames, normalParts_replicate_up]

theorem here_not_mem : Part.here ∉ ps := by
  have hnone : ∀ {names}, AreNames names → Part.here ∉ names := fun hnames hmem => by
    cases hnames _ hmem
  cases h with
  | absolute hnames =>
    rw [List.mem_cons, not_or]
    exact ⟨Part.noConfusion, hnone hnames⟩
  | relative ups hnames =>
    rw [List.mem_append, not_or]
    exact ⟨fun hmem => Part.noConfusion (List.eq_of_mem_replicate hmem), hnone hnames⟩

/-- In front of a step up there are steps up only. -/
theorem eq_up_of_mem {before after : List Part} (he : ps = before ++ Part.up :: after) :
    ∀ part ∈ before, part = Part.up := by
  intro part hpart
  cases h with
  | absolute hnames =>
    rename_i names
    have hmem : Part.up ∈ Part.root :: names := by
      rw [he]
      exact List.mem_append_right before List.mem_cons_self
    rcases List.mem_cons.1 hmem with hroot | hname
    · cases hroot
    · cases hnames _ hname
  | relative ups hnames =>
    rcases List.append_eq_append_iff.1 he with ⟨more, hbefore, hnames'⟩ | ⟨more, hups, -⟩
    · -- behind the steps up there are names
      have hmem : Part.up ∈ more ++ Part.up :: after := List.mem_append_right more List.mem_cons_self
      cases hnames _ (hnames' ▸ hmem)
    · exact List.eq_of_mem_replicate (hups ▸ List.mem_append_left more hpart)

theorem up_not_mem (hroot : ps.head? = some Part.root) : Part.up ∉ ps := by
  intro hmem
  obtain ⟨before, after, he⟩ := List.append_of_mem hmem
  have hups := h.eq_up_of_mem he
  cases before with
  | nil =>
    rw [he] at hroot
    cases hroot
  | cons first before =>
    rw [he] at hroot
    cases hroot
    cases hups _ List.mem_cons_self

end Reduced

/-- **A normal path is absolute exactly if the path is.** -/
theorem isAbsolute_normalize (p : Path) : p.normalize.isAbsolute = p.isAbsolute := by
  cases habs : p.isAbsolute with
  | true =>
    obtain ⟨names, -, hparts⟩ := rooted_normalize habs
    rw [isAbsolute_iff, hparts]
    rfl
  | false =>
    obtain ⟨ups, names, hleads⟩ := exists_leads habs
    rw [Bool.eq_false_iff, ne_eq, isAbsolute_iff, parts_normalize, hleads.normal]
    intro hroot
    rcases List.mem_append.1 (List.mem_of_mem_head? hroot) with hmem | hmem
    · cases List.eq_of_mem_replicate hmem
    · cases hleads.areNames _ hmem

/-! ## Joining paths -/

/-- **What is read from a directory** means its steps, taken from there. -/
theorem normalParts_parts_join (p : Path) (hq : q.isAbsolute = false) :
    normalParts (p.join q).parts = normalParts (p.parts ++ steps q.spelling.toList) := by
  by_cases hp : p.spelling = ""
  · -- a `.` in front of what is read means nothing
    have hjoin : p.join q = q := by
      rw [join, hq, if_neg Bool.false_ne_true, if_pos (.inl hp), hp, String.empty_append]
    have hnil : p.parts = [] := by rw [parts, hp]; rfl
    rw [hjoin, hnil, List.nil_append, normalParts_parts_of_relative hq]
  · rw [parts_join_of_relative hp hq]

/-- **Normalizing is canonical and compositional.** A normal path has no `.` in it, and a `..` only in
front of all names, which an absolute one has not; it is absolute exactly if the path is. It stays as it
is when it is normalized again. What is read from a path can as well be read from its normal form. -/
theorem normalize_canonical (p : Path) :
    Part.here ∉ p.normalize.parts ∧
    (∀ before after, p.normalize.parts = before ++ Part.up :: after → ∀ part ∈ before, part = .up) ∧
    (p.isAbsolute = true → Part.up ∉ p.normalize.parts) ∧
    p.normalize.isAbsolute = p.isAbsolute ∧
    p.normalize.normalize = p.normalize ∧
    ∀ q, (p.join q).normalize = (p.normalize.join q).normalize := by
  have hreduced := reduced_normalize p
  have habs := isAbsolute_normalize p
  refine ⟨hreduced.here_not_mem, fun before after he => hreduced.eq_up_of_mem he, fun hp => ?_, habs,
    ?_, fun q => ?_⟩
  · exact hreduced.up_not_mem (isAbsolute_iff.1 (habs.trans hp))
  · rw [normalize, hreduced.normalParts_eq, isPlain_normalize]
  · cases hq : q.isAbsolute with
    | true => rw [join, join, hq, if_pos rfl, if_pos rfl]
    | false =>
      have hsame : normalParts p.parts = normalParts p.normalize.parts := by
        rw [hreduced.normalParts_eq, parts_normalize]
      rw [normalize, normalize, normalParts_parts_join p hq, normalParts_parts_join _ hq,
        normalParts_append_congr hsame]

/-- Steps up that are lost at the root, and steps up that are kept. -/
theorem normalize_canonical_climbing :
    let p : Path := ⟨"/../x/./../../y"⟩
    let q : Path := ⟨"./x/../../..//b/."⟩
    (p.isAbsolute = true ∧ Part.up ∉ p.normalize.parts) ∧
      (q.normalize.parts = [Part.up] ++ Part.up :: [.name "b"] ∧ ∀ part ∈ [Part.up], part = Part.up) ∧
      (q.join ⟨"./../../c"⟩).normalize = (q.normalize.join ⟨"./../../c"⟩).normalize := by
  intro p q
  have hp : p.isAbsolute = true := by decide +kernel
  have hq : q.normalize.parts = [Part.up] ++ Part.up :: [.name "b"] := by decide +kernel
  obtain ⟨-, hleading, -, -, -, hjoin⟩ := normalize_canonical q
  exact ⟨⟨hp, (normalize_canonical p).2.2.1 hp⟩, ⟨hq, hleading _ _ hq⟩, hjoin ⟨"./../../c"⟩⟩

end PhpRename.Path
