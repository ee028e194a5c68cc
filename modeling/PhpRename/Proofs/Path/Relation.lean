import Mathlib.Data.List.Induction
import PhpRename.Proofs.Path.Directory

/-!
# How canonical paths lie to each other

* `absoluteFrom_leadingTo`: the relative path from a directory to a file leads there.
* `absoluteFrom_ofParts`: names lead down from one directory only.
* `absoluteFrom_slashed`: an absolute path is read the same from everywhere.
* `normalParts_append_steps`: a relative path leads up some steps, and from there down.
* `baseOfTail?_eq_some`: the base of a tail is the path that its names are below.
-/

namespace PhpRename.Path

variable {p q base target dir tail : Path} {part : Part} {ps qs names : List Part}

/-! ## Plain spellings -/

/-- A plain part is a step, and so neither the root nor a `.` -/
theorem AreNames.plain_of_subset (h : AreNames names) (hp : names ⊆ p.parts) :
    ∀ part ∈ names, part.Plain := by
  intro part hpart
  obtain ⟨text, rfl⟩ := h.exists_text hpart
  exact plain_of_mem_parts (hp hpart)

theorem Rooted.parts_ofParts (h : Rooted ps) (hp : ps ⊆ p.parts) : (ofParts ps).parts = ps := by
  obtain ⟨names, hnames, rfl⟩ := h
  exact Path.parts_ofParts
    ⟨names, hnames.plain_of_subset (List.subset_of_cons_subset hp), .inr rfl⟩

/-- Steps that are spelled plainly are a relative text, and the steps of that text. -/
theorem steps_ofParts (h : ∀ part ∈ ps, part.Plain) : (ofParts ps).isAbsolute = false ∧
    steps (ofParts ps).spelling.toList = ps := by
  have hparts : (ofParts ps).parts = ps := parts_ofParts ⟨ps, h, .inl rfl⟩
  have hrel : (ofParts ps).isAbsolute = false := by
    rw [Bool.eq_false_iff, ne_eq, isAbsolute_iff, hparts]
    exact fun hroot => h _ (List.mem_of_mem_head? hroot)
  refine ⟨hrel, ?_⟩
  rcases parts_of_relative hrel with hsteps | hhere
  · rw [← hsteps, hparts]
  · rw [hparts] at hhere
    exact (h .here (hhere ▸ List.mem_cons_self)).elim

/-- **An absolute path is read the same** from everywhere. -/
theorem absoluteFrom_slashed (h : target.Canonical) (dir : Path) :
    (absoluteFrom dir ⟨target.slashed⟩ == target) = true := by
  have hparts : (ofParts target.parts).parts = target.parts :=
    h.rooted.parts_ofParts (List.Subset.refl _)
  have hcanonical : (ofParts target.parts).Canonical := by
    rw [canonical_iff, hparts]
    exact h.rooted
  have hslashed : (⟨target.slashed⟩ : Path) = ofParts target.parts := rfl
  rw [beq_iff, hslashed, absoluteFrom, if_pos hcanonical.absolute, parts_normalize, hparts,
    h.rooted.normalParts]

/-- Names lead from a directory to a path that is below another one by them, if and only if the two
are the same. -/
theorem absoluteFrom_ofParts (hdir : dir.isAbsolute = true) (hnames : AreNames names)
    (hp : p.parts = ps ++ names) :
    (dir.absoluteFrom (ofParts names) == p) = true ↔ normalParts dir.parts = ps := by
  have hplain := hnames.plain_of_subset (p := p) (hp ▸ List.subset_append_right ..)
  obtain ⟨hrel, hsteps⟩ := steps_ofParts hplain
  rw [beq_iff, parts_absoluteFrom (spelling_ne hdir) hrel, hsteps,
    normalParts_append_names _ hnames, hp, List.append_cancel_right_eq]

/-! ## From a directory to a file -/

theorem take_commonLength (as bs : List Part) :
    as.take (commonLength as bs) = bs.take (commonLength as bs) ∧
      commonLength as bs ≤ as.length := by
  fun_induction commonLength as bs with
  | case1 a as bs ih => simp [ih.1, ih.2]
  | case2 a as b bs hne => simp
  | case3 as bs hno => simp

theorem one_le_commonLength (as bs : List Part) :
    1 ≤ commonLength (.root :: as) (.root :: bs) := by
  rw [commonLength, if_pos rfl]
  exact Nat.le_add_left 1 _

/-- Steps up to what two paths share and down from there lead from one to the other. -/
theorem normalParts_leading (hp : Rooted ps) (hq : Rooted qs) :
    normalParts (ps ++ (List.replicate (ps.length - commonLength ps qs) .up ++
      qs.drop (commonLength ps qs))) = qs := by
  obtain ⟨as, has, rfl⟩ := hp
  obtain ⟨bs, hbs, rfl⟩ := hq
  obtain ⟨htake, hle⟩ := take_commonLength (.root :: as) (.root :: bs)
  obtain ⟨n, hn⟩ := Nat.exists_eq_add_of_le' (one_le_commonLength as bs)
  rw [hn] at htake hle ⊢
  rw [List.take_succ_cons, List.take_succ_cons] at htake
  have htail := (List.cons.inj htake).2
  rw [← List.take_append_drop n as] at has
  -- what is left of the directory are names, and these are taken back
  have hlength : (Part.root :: as).length - (n + 1) = (as.drop n).reverse.length := by
    simp
  have hback : AreNames (as.drop n).reverse := fun part hpart =>
    has.of_append.2 part (List.mem_reverse.1 hpart)
  have hdone : (Part.root :: as).foldl climb [] =
      (as.drop n).reverse ++ ((bs.take n).reverse ++ [.root]) := by
    conv_lhs => rw [← List.take_append_drop n as]
    rw [List.foldl_cons, foldl_climb_names has, List.reverse_append, List.append_assoc, htail]
    rfl
  rw [normalParts, List.foldl_append, hdone, List.foldl_append, hlength, foldl_climb_up hback,
    List.drop_succ_cons, foldl_climb_names fun part hpart => hbs part (List.mem_of_mem_drop hpart)]
  simp

/-- **The relative path from a directory to a file** leads there. -/
theorem absoluteFrom_leadingTo (hbase : base.Canonical) (htarget : target.Canonical) :
    (⟨(leadingTo base target).slashed⟩ : Path).isAbsolute = false ∧
    normalParts (base.parts ++ steps (leadingTo base target).slashed.toList) = target.parts := by
  obtain ⟨bs, hbs, hparts⟩ := htarget.rooted
  have hplain : ∀ part ∈ List.replicate (base.parts.length - commonLength base.parts target.parts)
      Part.up ++ target.parts.drop (commonLength base.parts target.parts), part.Plain := by
    intro part hpart
    rcases List.mem_append.1 hpart with hup | hname
    · rw [(List.mem_replicate.1 hup).2]
      exact True.intro
    · obtain ⟨as, -, hbaseParts⟩ := hbase.rooted
      obtain ⟨n, hn⟩ := Nat.exists_eq_add_of_le' (one_le_commonLength as bs)
      rw [hbaseParts, hparts, hn, List.drop_succ_cons] at hname
      exact hbs.plain_of_subset (p := target) (hparts ▸ List.subset_cons_self _ _) part
        (List.mem_of_mem_drop hname)
  have hlead : (leadingTo base target).parts = _ := parts_ofParts ⟨_, hplain, .inl rfl⟩
  obtain ⟨hrel, hsteps⟩ := steps_ofParts hplain
  rw [slashed, hlead]
  exact ⟨hrel, by rw [hsteps, normalParts_leading hbase.rooted htarget.rooted]⟩

/-! ## The tail of a path -/

/-- A step up takes back the name before it. -/
theorem normalParts_concat_up {text : String} (h : normalParts ps = qs ++ [.name text]) :
    normalParts (ps ++ [.up]) = qs := by
  rw [normalParts, List.reverse_eq_iff, List.reverse_append, List.reverse_singleton,
    List.singleton_append] at h
  rw [normalParts, List.foldl_append, h]
  exact List.reverse_reverse qs

/-- Steps up are normal where there is nothing to take back. -/
theorem normalParts_replicate_up (n : Nat) :
    normalParts (List.replicate n .up) = List.replicate n .up := by
  have hfold : ∀ k : Nat, (List.replicate n Part.up).foldl climb (List.replicate k .up) =
      List.replicate (n + k) .up := by
    induction n with
    | zero => simp
    | succ n ih =>
      intro k
      have hclimb : climb (List.replicate k .up) .up = List.replicate (k + 1) .up := by
        cases k with
        | zero => rfl
        | succ k => simp [climb, List.replicate_succ]
      rw [List.replicate_succ, List.foldl_cons, hclimb, ih]
      congr 1
      omega
  have hstart := hfold 0
  rw [List.replicate_zero] at hstart
  rw [normalParts, hstart, List.reverse_replicate, Nat.add_zero]

/-- **A relative path leads up some steps, and from there down** by names, wherever it is read. -/
theorem normalParts_append_steps (h : ∀ part ∈ qs, part.Plain) :
    ∃ n names, AreNames names ∧ normalParts qs = List.replicate n .up ++ names ∧
      ∀ ps, normalParts (ps ++ qs) = normalParts (ps ++ List.replicate n .up) ++ names := by
  induction qs using List.reverseRecOn with
  | nil => exact ⟨0, [], areNames_nil, rfl, fun ps => by simp⟩
  | append_singleton qs part ih =>
    obtain ⟨hqs, hpart⟩ := List.forall_mem_append.1 h
    obtain ⟨n, names, hnames, hnormal, hread⟩ := ih hqs
    cases part with
    | root => exact (hpart .root List.mem_cons_self).elim
    | here => exact (hpart .here List.mem_cons_self).elim
    | name text =>
      have hname := areNames_singleton text
      refine ⟨n, names ++ [.name text], hnames.append hname, ?_, fun ps => ?_⟩
      · rw [normalParts_append_names _ hname, hnormal, List.append_assoc]
      · rw [← List.append_assoc, normalParts_append_names _ hname, hread, List.append_assoc]
    | up =>
      rcases List.eq_nil_or_concat names with rfl | ⟨above, last, rfl⟩
      · -- there is no name to take back, so the path leads up one step more
        rw [List.append_nil] at hnormal
        have hup : ∀ ps, normalParts (ps ++ (qs ++ [.up])) =
            normalParts (ps ++ List.replicate (n + 1) .up) := by
          intro ps
          have hsame := (hread ps).trans (List.append_nil _)
          rw [← List.append_assoc, normalParts_append_congr hsame, List.append_assoc,
            ← List.replicate_succ']
        refine ⟨n + 1, [], hnames, ?_, fun ps => by rw [hup, List.append_nil]⟩
        rw [List.append_nil]
        exact (hup []).trans (normalParts_replicate_up (n + 1))
      · rw [List.concat_eq_append] at hnames hnormal hread
        obtain ⟨habove, hlast⟩ := hnames.of_append
        obtain ⟨text, rfl, -⟩ := hlast.of_cons
        refine ⟨n, above, habove, ?_, fun ps => ?_⟩
        · exact normalParts_concat_up (hnormal.trans (List.append_assoc ..).symm)
        · rw [← List.append_assoc]
          exact normalParts_concat_up ((hread ps).trans (List.append_assoc ..).symm)

/-- A `.` in front does not count. -/
theorem normalParts_parts_of_relative (h : p.isAbsolute = false) :
    normalParts p.parts = normalParts (steps p.spelling.toList) := by
  rcases parts_of_relative h with hp | hp <;> rw [hp]
  rfl

theorem filter_up_append (n : Nat) (h : AreNames names) :
    (List.replicate n Part.up ++ names).filter Part.isName = names := by
  rw [List.filter_append, List.filter_replicate_of_neg (by decide), List.nil_append,
    List.filter_eq_self]
  exact h

/-- The names that a path leads down by are told by its steps, read from the root or not. -/
theorem filter_normalParts (p : Path) : (normalParts p.parts).filter Part.isName =
    (normalParts (steps p.spelling.toList)).filter Part.isName := by
  cases habs : p.isAbsolute with
  | false => rw [normalParts_parts_of_relative habs]
  | true =>
    have hplain : ∀ part ∈ steps p.spelling.toList, part.Plain := fun _ => plain_of_mem_steps
    obtain ⟨n, names, hnames, hnormal, hread⟩ := normalParts_append_steps hplain
    have hroot : normalParts ([.root] ++ List.replicate n .up) = [.root] :=
      (normalParts_up_root areNames_nil n).trans (by simp)
    have hparts : p.parts = [.root] ++ steps p.spelling.toList := parts_of_isAbsolute habs
    rw [hparts, hread, hroot, hnormal, filter_up_append n hnames, List.filter_append,
      List.filter_eq_self.2 hnames]
    rfl

/-- The path leads up `n` steps from where it is read, and from there down by names. -/
structure Leads (p : Path) (n : Nat) (names : List Part) : Prop where
  relative : p.isAbsolute = false
  areNames : AreNames names
  normal : normalParts p.parts = List.replicate n .up ++ names
  read : ∀ ps, normalParts (ps ++ steps p.spelling.toList) =
    normalParts (ps ++ List.replicate n .up) ++ names

theorem exists_leads (h : p.isAbsolute = false) : ∃ n names, p.Leads n names := by
  have hplain : ∀ part ∈ steps p.spelling.toList, part.Plain := fun _ => plain_of_mem_steps
  obtain ⟨n, names, hnames, hnormal, hread⟩ := normalParts_append_steps hplain
  exact ⟨n, names, h, hnames, (normalParts_parts_of_relative h).trans hnormal, hread⟩

/-- The names that a path leads down by. -/
theorem Leads.filter_isName {n : Nat} (h : p.Leads n names) :
    (normalParts p.parts).filter Part.isName = names := by
  rw [h.normal, filter_up_append n h.areNames]

theorem Leads.contains_up {n : Nat} (h : p.Leads n names) :
    (normalParts p.parts).contains .up = true ↔ n ≠ 0 := by
  have hno : Part.up ∉ names := fun hup => by cases h.areNames _ hup
  rw [h.normal, List.contains_iff_mem, List.mem_append, List.mem_replicate]
  simp [hno]

/-- A path means a file, read from a directory, if its steps up lead from there to what the file is
below of by its names. -/
theorem Leads.absoluteFrom_iff {n : Nat} (h : p.Leads n names) (hdir : dir.isAbsolute = true)
    (hq : q.parts = ps ++ names) :
    (dir.absoluteFrom p == q) = true ↔ normalParts (dir.parts ++ List.replicate n .up) = ps := by
  rw [beq_iff, parts_absoluteFrom (spelling_ne hdir) h.relative, h.read, hq,
    List.append_cancel_right_eq]

/-- From some directory, any number of steps up lead to a given one. -/
theorem Canonical.exists_below (h : p.Canonical) (n : Nat) : ∃ dir : Path, dir.isAbsolute = true ∧
    normalParts (dir.parts ++ List.replicate n .up) = p.parts := by
  obtain ⟨names, hnames, hparts⟩ := h.rooted
  have hdown : AreNames (List.replicate n (Part.name "x")) := by
    intro part hpart
    rw [List.eq_of_mem_replicate hpart]
    rfl
  have hplain : ∀ part ∈ names ++ List.replicate n (Part.name "x"), part.Plain := by
    intro part hpart
    rcases List.mem_append.1 hpart with hmem | hmem
    · exact hnames.plain_of_subset (p := p) (hparts ▸ List.subset_cons_self _ _) part hmem
    · rw [List.eq_of_mem_replicate hmem, Part.Plain]
      decide
  have hdir : (ofParts (.root :: (names ++ List.replicate n (.name "x")))).parts =
      .root :: (names ++ List.replicate n (.name "x")) := parts_ofParts ⟨_, hplain, .inr rfl⟩
  refine ⟨_, isAbsolute_iff.2 (by rw [hdir]; rfl), ?_⟩
  rw [hdir, normalParts_up_root (hnames.append hdown), hparts]
  simp

/-- **The base of a tail** is the path that its names are below. -/
theorem baseOfTail?_eq_some (hp : p.Canonical) (h : baseOfTail? p tail = some base) :
    base.Canonical ∧
      p.parts = base.parts ++ (normalParts tail.parts).filter Part.isName := by
  rw [baseOfTail?] at h
  dsimp only at h
  generalize hnames : (normalParts tail.parts).filter Part.isName = names at h ⊢
  split at h
  · cases h
  rename_i hlength
  rw [not_or, Nat.not_lt] at hlength
  split at h
  swap
  · cases h
  rename_i hdrop
  obtain rfl := Option.some.inj h
  have hsplit : p.parts.take (p.parts.length - names.length) ++ names = p.parts := by
    conv_rhs => rw [← List.take_append_drop (p.parts.length - names.length) p.parts, hdrop]
  -- the names are not the whole path, as that begins at the root
  have hne : p.parts.take (p.parts.length - names.length) ≠ [] := by
    intro hnil
    obtain ⟨below, -, hparts⟩ := hp.rooted
    rw [hnil, List.nil_append, hparts] at hsplit
    have hroot : Part.root ∈ (normalParts tail.parts).filter Part.isName := by
      rw [hnames, hsplit]
      exact List.mem_cons_self
    cases (List.mem_filter.1 hroot).2
  have hrooted := ((hsplit.symm ▸ hp.rooted : Rooted (_ ++ names)).of_append hne).1
  have hparts := hrooted.parts_ofParts (p := p) (List.take_subset _ _)
  rw [canonical_iff, hparts]
  exact ⟨hrooted, hsplit.symm⟩

/-- The parts below a base are those behind its parts. -/
theorem below?_eq_some : base.below? p = some ps ↔ p.parts = base.parts ++ ps := by
  rw [below?]
  constructor
  · intro h
    split at h
    · rename_i hpre
      obtain ⟨rest, hrest⟩ := List.isPrefixOf_iff_prefix.1 hpre
      obtain rfl := Option.some.inj h
      rw [← hrest, List.drop_left]
    · cases h
  · intro h
    rw [if_pos (List.isPrefixOf_iff_prefix.2 ⟨ps, h.symm⟩), h, List.drop_left]

end PhpRename.Path
