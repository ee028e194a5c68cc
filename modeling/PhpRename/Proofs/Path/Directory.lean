import Mathlib.Data.List.Induction
import PhpRename.Proofs.Path.Canonical

/-!
# Directories of paths

* `map_parts_parent?`: what holds a path has all its parts but the last.
* `parts_directory`, `exists_parent?`: the directory of a file, and its name in that.
* `parts_absoluteFrom`: what a relative text means, read from a directory.
-/

namespace PhpRename.Path

variable {p q dir : Path} {ps names : List Part} {ss : List (List Char)} {cs s : List Char}

/-! ## The path above -/

theorem segments_joinSegments (hne : ss ≠ []) (hslash : ∀ s ∈ ss, '/' ∉ s) :
    segments (joinSegments ss) = ss := by
  induction ss with
  | nil => exact absurd rfl hne
  | cons s ss ih =>
    rw [List.forall_mem_cons] at hslash
    cases ss with
    | nil => exact segments_of_not_mem hslash.1
    | cons t ss =>
      rw [joinSegments, segments_append_slash, segments_of_not_mem hslash.1,
        ih (List.cons_ne_nil t ss) hslash.2, List.singleton_append]

/-- The pieces that are dropped stand for no part, and the last one that is kept stands for one. -/
theorem dropTrivial_cases (ss : List (List Char)) :
    (dropTrivial ss = [] ∧ ss.filterMap Part.ofSegment? = []) ∨
      ∃ front s part, dropTrivial ss = front ++ [s] ∧ Part.ofSegment? s = some part ∧
        ss.filterMap Part.ofSegment? = front.filterMap Part.ofSegment? ++ [part] := by
  induction ss using List.reverseRecOn with
  | nil => exact .inl ⟨rfl, rfl⟩
  | append_singleton ss s ih =>
    rw [dropTrivial, List.reverse_append, List.reverse_singleton, List.singleton_append,
      List.dropWhile_cons, List.filterMap_append]
    cases hs : Part.ofSegment? s with
    | none =>
      rw [List.filterMap_cons_none hs, List.filterMap_nil, List.append_nil,
        Option.isNone_none, if_pos rfl]
      exact ih
    | some part =>
      rw [List.filterMap_cons_some hs, List.filterMap_nil, Option.isNone_some,
        if_neg Bool.false_ne_true]
      exact .inr ⟨ss, s, part, by simp, hs, rfl⟩

/-- What is dropped stands for no part. -/
theorem exists_dropTrivial (ss : List (List Char)) :
    ∃ trivial, ss = dropTrivial ss ++ trivial ∧ ∀ s ∈ trivial, Part.ofSegment? s = none := by
  refine ⟨(ss.reverse.takeWhile fun s => (Part.ofSegment? s).isNone).reverse, ?_, fun s hs => ?_⟩
  · rw [dropTrivial, ← List.reverse_append, List.takeWhile_append_dropWhile, List.reverse_reverse]
  · exact Option.isNone_iff_eq_none.1 (List.all_eq_true.1 List.all_takeWhile s (List.mem_reverse.1 hs))

theorem filterMap_dropTrivial (ss : List (List Char)) :
    (dropTrivial ss).filterMap Part.ofSegment? = ss.filterMap Part.ofSegment? := by
  rcases dropTrivial_cases ss with ⟨hnil, hparts⟩ | ⟨front, s, part, hdrop, hs, hparts⟩
  · rw [hnil, hparts, List.filterMap_nil]
  · rw [hdrop, hparts, List.filterMap_append, List.filterMap_cons_some hs, List.filterMap_nil]

theorem dropTrivial_subset : dropTrivial ss ⊆ ss := by
  intro s hs
  rw [dropTrivial, List.mem_reverse] at hs
  exact List.mem_reverse.1 (List.dropWhile_sublist _ |>.subset hs)

/-- What holds a path, by its pieces: without the last one that stands for a part. -/
theorem parent?_cases {first : List Char} {rest : List (List Char)}
    (h : segments p.spelling.toList = first :: rest) :
    (rest.filterMap Part.ofSegment? = [] ∧ p.parent? = if first = [] then none else some ⟨""⟩) ∨
      ∃ front part, front ⊆ rest ∧
        rest.filterMap Part.ofSegment? = front.filterMap Part.ofSegment? ++ [part] ∧
        p.parent? = if front = [] then if first = [] then some ⟨"/"⟩ else some ⟨String.ofList first⟩
          else some ⟨String.ofList (joinSegments (first :: front))⟩ := by
  rw [parent?, h]
  dsimp only
  rcases dropTrivial_cases rest with ⟨hbody, hparts⟩ | ⟨front, s, part, hbody, -, hparts⟩
  · rw [hbody]
    exact .inl ⟨hparts, rfl⟩
  · refine .inr ⟨dropTrivial front, part, ?_, by rw [filterMap_dropTrivial, hparts], ?_⟩
    · intro x hx
      refine dropTrivial_subset ?_
      rw [hbody]
      exact List.mem_append_left _ (dropTrivial_subset hx)
    · obtain ⟨t, ts, hcons⟩ := List.exists_cons_of_ne_nil
        (List.append_ne_nil_of_right_ne_nil front (List.cons_ne_nil s []))
      rw [hbody, hcons]
      dsimp only
      rw [← hcons, List.dropLast_concat]
      cases dropTrivial front <;> rfl

/-- The first piece stands for one part, and only the empty one for the root. -/
theorem exists_lead {first : List Char} (hslash : '/' ∉ first) :
    ∃ lead, (lead = .root ↔ first = []) ∧ ∀ rest, (first = [] → rest ≠ []) →
      partsOfSegments (first :: rest) = lead :: rest.filterMap Part.ofSegment? := by
  by_cases hf : first = []
  · refine ⟨.root, iff_of_true rfl hf, fun rest hrest => ?_⟩
    rw [partsOfSegments, if_pos hf, if_neg (hrest hf)]
    rfl
  by_cases hdot : first = ['.']
  · refine ⟨.here, iff_of_false Part.noConfusion hf, fun rest _ => ?_⟩
    rw [partsOfSegments, if_neg hf, if_pos hdot]
    rfl
  obtain ⟨part, hpart⟩ : ∃ part, Part.ofSegment? first = some part := by
    rw [Part.ofSegment?, if_neg (by rw [not_or]; exact ⟨hf, hdot⟩)]
    split <;> exact ⟨_, rfl⟩
  have hplain := Part.plain_of_ofSegment? hslash hpart
  refine ⟨part, iff_of_false (fun he => by rwa [he] at hplain) hf, fun rest _ => ?_⟩
  rw [partsOfSegments, if_neg hf, if_neg hdot, hpart]
  rfl

/-- **What holds a path** has its parts but the last. Nothing holds the root and the empty path. -/
theorem map_parts_parent? (p : Path) : p.parent?.map parts =
    if p.parts = [] ∨ p.parts = [.root] then none else some p.parts.dropLast := by
  obtain ⟨first, rest, hsegments⟩ :=
    List.exists_cons_of_ne_nil (segments_ne_nil p.spelling.toList)
  have hslash : ∀ s ∈ first :: rest, '/' ∉ s := fun s hs => not_mem_of_mem_segments (hsegments ▸ hs)
  have hfirst := hslash first List.mem_cons_self
  have hparts : p.parts = partsOfSegments (first :: rest) := by rw [parts, hsegments]
  obtain ⟨lead, hroot, hlead⟩ := exists_lead hfirst
  rcases parent?_cases hsegments with ⟨hrest, hparent⟩ | ⟨front, part, hsub, hrest, hparent⟩
  · -- the path is one part, or none
    rw [hparent, hparts]
    by_cases hf : first = []
    · rw [if_pos hf, partsOfSegments, hrest, if_pos hf, if_pos]
      · rfl
      · split
        · exact .inl rfl
        · exact .inr rfl
    · rw [if_neg hf, hlead rest fun he => absurd he hf, hrest, if_neg (by simp [hroot, hf])]
      rfl
  · -- behind the first piece there is a part, which is taken away
    have hne : rest ≠ [] := by
      rintro rfl
      simp at hrest
    rw [hparts, hlead rest fun _ => hne, hrest, if_neg (by simp), ← List.cons_append,
      List.dropLast_concat, hparent]
    by_cases hfront : front = []
    · rw [if_pos hfront, hfront, List.filterMap_nil]
      by_cases hf : first = []
      · rw [if_pos hf, hroot.2 hf]
        rfl
      · rw [if_neg hf, Option.map_some, parts, String.toList_ofList, segments_of_not_mem hfirst,
          hlead [] fun he => absurd he hf, List.filterMap_nil]
    · have hinner : ∀ s ∈ first :: front, '/' ∉ s :=
        List.forall_mem_cons.2 ⟨hfirst, fun s hs => hslash s (List.mem_cons_of_mem _ (hsub hs))⟩
      rw [if_neg hfront, Option.map_some, parts, String.toList_ofList,
        segments_joinSegments (List.cons_ne_nil _ _) hinner, hlead front fun _ => hfront]

theorem parts_ne_nil (h : p.spelling ≠ "") : p.parts ≠ [] := by
  obtain ⟨first, rest, hsegments⟩ :=
    List.exists_cons_of_ne_nil (segments_ne_nil p.spelling.toList)
  have hone : first = [] → rest ≠ [] := by
    rintro rfl rfl
    refine segments_ne_singleton (fun hnil => h ?_) hsegments
    exact String.toList_eq_nil_iff.1 hnil
  obtain ⟨lead, -, hlead⟩ := exists_lead (not_mem_of_mem_segments (hsegments ▸ List.mem_cons_self))
  rw [parts, hsegments, hlead rest hone]
  exact List.cons_ne_nil lead _

/-- A path has the pieces of the one that holds it, one that stands for its last part, and some that
stand for none. -/
theorem exists_segments_parent? (h : p.parent? = some q) (hne : q.spelling ≠ "") :
    ∃ pieces more s part slashes,
      segments p.spelling.toList = pieces ++ (more ++ s :: slashes) ∧
      (∀ x ∈ more, Part.ofSegment? x = none) ∧ Part.ofSegment? s = some part ∧ part ∈ p.parts ∧
      (segments q.spelling.toList = pieces ∨
        pieces = [[]] ∧ segments q.spelling.toList = [[], []]) := by
  obtain ⟨first, rest, hsegments⟩ :=
    List.exists_cons_of_ne_nil (segments_ne_nil p.spelling.toList)
  have hslash : ∀ s ∈ first :: rest, '/' ∉ s := fun s hs => not_mem_of_mem_segments (hsegments ▸ hs)
  obtain ⟨slashes, hrest, -⟩ := exists_dropTrivial rest
  rw [parent?, hsegments] at h
  dsimp only at h
  rcases dropTrivial_cases rest with ⟨hnil, -⟩ | ⟨front, s, part, hdrop, hs, -⟩
  · -- the path is its first piece, and lies in no other one
    rw [hnil] at h
    dsimp only at h
    split at h
    · cases h
    · cases h
      exact absurd rfl hne
  obtain ⟨more, hfront, hmore⟩ := exists_dropTrivial front
  have hpieces : segments p.spelling.toList =
      (first :: dropTrivial front) ++ (more ++ s :: slashes) := by
    rw [hsegments, hrest, hdrop, List.append_assoc, List.singleton_append]
    conv_lhs => rw [hfront]
    rw [List.append_assoc, List.cons_append]
  have hmem : s ∈ rest := by
    rw [hrest, hdrop]
    exact List.mem_append_left _ (List.mem_append_right _ List.mem_cons_self)
  have hpart : part ∈ p.parts := by
    rw [parts, hsegments, partsOfSegments]
    exact List.mem_append_right _ (List.mem_filterMap.2 ⟨s, hmem, hs⟩)
  refine ⟨first :: dropTrivial front, more, s, part, slashes, hpieces, hmore, hs, hpart, ?_⟩
  have hinner : ∀ x ∈ first :: dropTrivial front, '/' ∉ x := by
    intro x hx
    refine hslash x ?_
    rcases List.mem_cons.1 hx with rfl | hx
    · exact List.mem_cons_self
    · refine List.mem_cons_of_mem _ ?_
      rw [hrest, hdrop]
      exact List.mem_append_left _ (List.mem_append_left _ (dropTrivial_subset hx))
  obtain ⟨t, ts, hcons⟩ := List.exists_cons_of_ne_nil
    (List.append_ne_nil_of_right_ne_nil front (List.cons_ne_nil s []))
  rw [hdrop, hcons] at h
  dsimp only at h
  rw [← hcons, List.dropLast_concat] at h
  cases hleft : dropTrivial front with
  | nil =>
    rw [hleft] at h
    dsimp only at h
    split at h
    · rename_i hfirst
      cases h
      exact .inr ⟨by rw [hfirst], rfl⟩
    · cases h
      rw [String.toList_ofList]
      exact .inl (segments_of_not_mem (hslash first List.mem_cons_self))
  | cons x left =>
    rw [hleft] at h hinner
    cases h
    rw [String.toList_ofList]
    exact .inl (segments_joinSegments (List.cons_ne_nil first _) hinner)

/-! ## Directories of canonical paths -/

theorem parts_parent? (h : p.parent? = some q) : q.parts = p.parts.dropLast := by
  have hmap := map_parts_parent? p
  rw [h, Option.map_some] at hmap
  split at hmap
  · cases hmap
  · exact Option.some.inj hmap

theorem isAbsolute_parent? (h : p.parent? = some q) (hne : q.spelling ≠ "") :
    q.isAbsolute = p.isAbsolute := by
  have hparts := parts_parent? h
  have hqne := parts_ne_nil hne
  rw [Bool.eq_iff_iff, isAbsolute_iff, isAbsolute_iff]
  cases hp : p.parts with
  | nil =>
    rw [hp] at hparts
    exact absurd hparts hqne
  | cons part ps =>
    rw [hp] at hparts
    cases ps with
    | nil => exact absurd hparts hqne
    | cons part' ps => rw [hparts, List.dropLast_cons_cons, List.head?_cons, List.head?_cons]

/-- **The directory of a file** leads down by the same names but the last. -/
theorem parts_directory (h : p.parts = .root :: names) :
    p.directory.parts = .root :: names.dropLast := by
  have hmap := map_parts_parent? p
  rw [directory]
  cases hparent : p.parent? with
  | none =>
    rw [hparent, Option.map_none, h] at hmap
    split at hmap
    · rename_i hroot
      have hnil : names = [] := by simpa using hroot
      rw [hnil]
      rfl
    · cases hmap
  | some q =>
    rw [Option.getD_some, parts_parent? hparent, h]
    cases names with
    | nil => simp [hparent, h] at hmap
    | cons part names => rfl

theorem Canonical.directory (h : p.Canonical) : p.directory.Canonical := by
  obtain ⟨names, hnames, hp⟩ := h.rooted
  exact canonical_iff.2 ⟨names.dropLast, fun part hpart => hnames part (List.dropLast_subset _ hpart),
    parts_directory hp⟩

theorem fileName?_eq_some {name : String} :
    p.fileName? = some name ↔ p.parts.getLast? = some (.name name) := by
  rw [fileName?]
  split
  · rename_i text hlast
    rw [hlast, Option.some_inj, Option.some_inj, Part.name.injEq]
  · rename_i hno
    exact iff_of_false nofun (hno name)

/-- **A file is a name in a directory.** -/
theorem exists_parent? {name : String} (h : p.fileName? = some name) :
    ∃ q, p.parent? = some q ∧ p.parts = q.parts ++ [.name name] := by
  have hlast := fileName?_eq_some.1 h
  cases hparent : p.parent? with
  | none =>
    have hmap := map_parts_parent? p
    rw [hparent, Option.map_none] at hmap
    split at hmap
    · rename_i hroot
      rcases hroot with hroot | hroot <;> rw [hroot] at hlast <;> cases hlast
    · cases hmap
  | some q =>
    refine ⟨q, rfl, ?_⟩
    obtain ⟨front, hfront⟩ := List.getLast?_eq_some_iff.1 hlast
    rw [parts_parent? hparent, hfront, List.dropLast_concat]

/-! ## Reading from a directory -/

theorem parts_absoluteFrom_of_absolute (dir : Path) (h : q.isAbsolute = true) :
    (absoluteFrom dir q).parts = normalParts (.root :: steps q.spelling.toList) := by
  rw [absoluteFrom, if_pos h, parts_normalize, parts_of_isAbsolute h]

/-- **What a relative text means**, read from a directory: its steps are taken from there. -/
theorem parts_absoluteFrom (hdir : dir.spelling ≠ "") (h : q.isAbsolute = false) :
    (absoluteFrom dir q).parts = normalParts (dir.parts ++ steps q.spelling.toList) := by
  rw [absoluteFrom, if_neg (Bool.eq_false_iff.1 h), parts_normalize,
    parts_join_of_relative hdir h]

end PhpRename.Path
