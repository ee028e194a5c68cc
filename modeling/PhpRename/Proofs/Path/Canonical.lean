import Mathlib.Data.List.Basic
import PhpRename.Path.Relation
import PhpRename.Proofs.Path.Parts

/-!
# Canonical paths

Files are known by paths that begin at the root and lead down by names alone. Whatever is read from
the directory of such a file is such a path again: a `..` takes back a name, and at the root it is
lost.

* `normalParts_append_names`, `normalParts_up_root`: a step down adds a name, a step up takes one
  back.
* `Canonical`: an absolute path that is its own normal form.
* `canonical_iff`: it leads down from the root by names.
* `Rooted.normalParts_append`: so does what is read from its directory.
-/

namespace PhpRename.Path

variable {p q dir : Path} {part : Part} {ps qs names : List Part}

/-! ## Taking steps -/

/-- All parts are names. -/
def AreNames (ps : List Part) : Prop :=
  ∀ part ∈ ps, part.isName = true

theorem areNames_nil : AreNames [] :=
  fun _ hpart => nomatch hpart

theorem areNames_singleton (text : String) : AreNames [.name text] :=
  List.forall_mem_singleton.2 rfl

theorem AreNames.append (hp : AreNames ps) (hq : AreNames qs) : AreNames (ps ++ qs) :=
  List.forall_mem_append.2 ⟨hp, hq⟩

theorem AreNames.of_append (h : AreNames (ps ++ qs)) : AreNames ps ∧ AreNames qs :=
  List.forall_mem_append.1 h

theorem AreNames.exists_text (h : AreNames ps) (hpart : part ∈ ps) : ∃ text, part = .name text := by
  have hname := h part hpart
  cases part with
  | name text => exact ⟨text, rfl⟩
  | root => cases hname
  | here => cases hname
  | up => cases hname

theorem AreNames.of_cons (h : AreNames (part :: ps)) :
    ∃ text, part = .name text ∧ AreNames ps := by
  obtain ⟨text, hpart⟩ := h.exists_text List.mem_cons_self
  exact ⟨text, hpart, fun x hx => h x (List.mem_cons_of_mem _ hx)⟩

/-- Names add themselves to what they are read from. -/
theorem foldl_climb_names (h : AreNames names) (done : List Part) :
    names.foldl climb done = names.reverse ++ done := by
  induction names generalizing done with
  | nil => rfl
  | cons part names ih =>
    obtain ⟨text, rfl, hnames⟩ := h.of_cons
    rw [List.foldl_cons, ih hnames, climb, List.reverse_cons, List.append_assoc]
    rfl

/-- As many steps up as there are names take all of these back. -/
theorem foldl_climb_up (h : AreNames names) (done : List Part) :
    (List.replicate names.length Part.up).foldl climb (names ++ done) = done := by
  induction names with
  | nil => rfl
  | cons part names ih =>
    obtain ⟨text, rfl, hnames⟩ := h.of_cons
    exact ih hnames

/-- Steps from the root: those up are lost when there is no name left. -/
theorem foldl_climb_up_root (h : AreNames names) (n : Nat) :
    (List.replicate n Part.up).foldl climb (names ++ [.root]) = names.drop n ++ [.root] := by
  induction n generalizing names with
  | zero => rfl
  | succ n ih =>
    cases names with
    | nil => simpa [List.replicate_succ, climb] using ih areNames_nil
    | cons part names =>
      obtain ⟨text, rfl, hnames⟩ := h.of_cons
      exact ih hnames

/-- What is read from a directory depends on its normal form alone. -/
theorem normalParts_append_congr {rs : List Part} (h : normalParts ps = normalParts qs) :
    normalParts (ps ++ rs) = normalParts (qs ++ rs) := by
  have hdone := List.reverse_injective h
  rw [normalParts, normalParts, List.foldl_append, List.foldl_append, hdone]

theorem normalParts_append_names (ps : List Part) (h : AreNames names) :
    normalParts (ps ++ names) = normalParts ps ++ names := by
  rw [normalParts, List.foldl_append, foldl_climb_names h, List.reverse_append,
    List.reverse_reverse, normalParts]

/-- Names are normal. -/
theorem normalParts_names (h : AreNames names) : normalParts names = names :=
  normalParts_append_names [] h

/-- **A step up takes back a name**, and at the root it is lost. -/
theorem normalParts_up_root (h : AreNames names) (n : Nat) :
    normalParts (.root :: names ++ List.replicate n .up) =
      .root :: names.take (names.length - n) := by
  have hback : AreNames names.reverse := fun part hpart => h part (List.mem_reverse.1 hpart)
  have hdone : (Part.root :: names).foldl climb [] = names.reverse ++ [.root] :=
    foldl_climb_names h [.root]
  rw [normalParts, List.foldl_append, hdone, foldl_climb_up_root hback, List.drop_reverse]
  simp

/-! ## Canonical lists of parts -/

/-- The root and names behind it. -/
def Rooted (ps : List Part) : Prop :=
  ∃ names, AreNames names ∧ ps = .root :: names

theorem rooted_root : Rooted [.root] :=
  ⟨[], areNames_nil, rfl⟩

/-- Parts above some that begin at the root begin there, too. -/
theorem Rooted.of_append (h : Rooted (ps ++ qs)) (hp : ps ≠ []) : Rooted ps ∧ AreNames qs := by
  obtain ⟨names, hnames, he⟩ := h
  obtain ⟨first, rest, rfl⟩ := List.exists_cons_of_ne_nil hp
  obtain ⟨rfl, rfl⟩ := List.cons.inj he
  exact ⟨⟨rest, hnames.of_append.1, rfl⟩, hnames.of_append.2⟩

/-- Canonical parts are normal. -/
theorem Rooted.normalParts (h : Rooted ps) : normalParts ps = ps := by
  obtain ⟨names, hnames, rfl⟩ := h
  exact normalParts_append_names [.root] hnames

/-- Steps up lead away from a directory, unless that is the root. -/
theorem Rooted.normalParts_up_eq_self (h : Rooted ps) (n : Nat) :
    Path.normalParts (ps ++ List.replicate n .up) = ps ↔ n = 0 ∨ ps = [.root] := by
  obtain ⟨names, hnames, rfl⟩ := h
  rw [normalParts_up_root hnames, List.cons.injEq, List.cons.injEq]
  constructor
  · rintro ⟨-, htake⟩
    have hlength := congrArg List.length htake
    rw [List.length_take] at hlength
    by_cases hn : n = 0
    · exact .inl hn
    · exact .inr ⟨rfl, List.eq_nil_of_length_eq_zero (by omega)⟩
  · rintro (rfl | ⟨-, rfl⟩)
    · exact ⟨rfl, List.take_length⟩
    · exact ⟨rfl, List.take_nil⟩

/-- No step leads away from the root. -/
theorem rooted_climb {done : List Part} (h : Rooted done.reverse) (part : Part) :
    Rooted (climb done part).reverse := by
  obtain ⟨names, hnames, hdone⟩ := h
  rw [List.reverse_eq_iff, List.reverse_cons] at hdone
  cases part with
  | here => exact ⟨names, hnames, by rw [climb, hdone, List.reverse_append]; simp⟩
  | root => exact rooted_root
  | name text =>
    refine ⟨names ++ [.name text], hnames.append (areNames_singleton text), ?_⟩
    rw [climb, hdone]
    simp
  | up =>
    rcases List.eq_nil_or_concat names with rfl | ⟨above, last, rfl⟩
    · -- at the root the step is lost
      rw [hdone]
      exact rooted_root
    · obtain ⟨habove, hlast⟩ := (List.concat_eq_append ▸ hnames).of_append
      obtain ⟨text, rfl, -⟩ := hlast.of_cons
      refine ⟨above, habove, ?_⟩
      rw [hdone, List.concat_eq_append, List.reverse_append]
      simp [climb]

/-- **Steps from a canonical directory** lead to a canonical path. -/
theorem Rooted.normalParts_append (h : Rooted ps) (qs : List Part) :
    Rooted (Path.normalParts (ps ++ qs)) := by
  have hfold : ∀ done : List Part, Rooted done.reverse → Rooted (qs.foldl climb done).reverse := by
    induction qs with
    | nil => exact fun done hd => hd
    | cons part qs ih => exact fun done hd => ih _ (rooted_climb hd part)
  rw [Path.normalParts, List.foldl_append]
  refine hfold _ ?_
  obtain ⟨names, hnames, rfl⟩ := h
  rw [List.foldl_cons, foldl_climb_names hnames, List.reverse_append, List.reverse_reverse]
  exact ⟨names, hnames, rfl⟩

/-! ## Canonical paths -/

/-- The path begins at the root, and is its own normal form. -/
structure Canonical (p : Path) : Prop where
  absolute : p.isAbsolute = true
  normal : (p.normalize == p) = true

theorem parts_normalize (p : Path) : p.normalize.parts = normalParts p.parts :=
  parts_ofParts (normal_normalParts fun _ => plain_of_mem_parts)

theorem rooted_normalize (h : p.isAbsolute = true) : Rooted p.normalize.parts := by
  rw [parts_normalize, parts_of_isAbsolute h]
  exact rooted_root.normalParts_append _

/-- **A path is canonical** if and only if it leads down from the root by names. -/
theorem canonical_iff : p.Canonical ↔ Rooted p.parts := by
  constructor
  · rintro ⟨habs, hnormal⟩
    rw [← beq_iff.1 hnormal]
    exact rooted_normalize habs
  · intro h
    refine ⟨?_, beq_iff.2 ((parts_normalize p).trans h.normalParts)⟩
    obtain ⟨names, -, hp⟩ := h
    rw [isAbsolute_iff, hp]
    rfl

theorem Canonical.rooted (h : p.Canonical) : Rooted p.parts :=
  canonical_iff.1 h

theorem spelling_ne (h : p.isAbsolute = true) : p.spelling ≠ "" := by
  intro he
  rw [isAbsolute, he] at h
  cases h

end PhpRename.Path
