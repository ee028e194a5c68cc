import Mathlib.Data.List.Nodup
import PhpRename.Proofs.Disk.Entry

/-!
# Disks in good order

A disk is *tidy* if it is a tree, lists each name once, and does not list the root. Then an entry is
listed exactly if it stands under its name (`mem_entries_iff`), and what the files of the disk hold can
be read off the list (`contents`).

* `Tidy.put`, `Tidy.replace`: a new entry, and new content for a file, keep a disk tidy.
* `Disk.Movable`: one name can take the place of another. Then `relocate` keeps the disk tidy
  (`Movable.tidy`), moves entries and loses none (`Movable.node?_along`, `Movable.exists_along`), and
  keeps what the files hold (`Movable.contents`).
-/

namespace PhpRename.Disk

variable {d d' : Disk} {a b n m dir rest : Name} {node : Node} {last : String} {content : Content}
  {writable : Bool}

/-! ## Names -/

theorem isWithin_iff : Name.isWithin n dir = true ↔ ∃ rest, n = dir ++ rest := by
  rw [Name.isWithin, List.isPrefixOf_iff_prefix]
  constructor
  · rintro ⟨rest, he⟩
    exact ⟨rest, he.symm⟩
  · rintro ⟨rest, he⟩
    exact ⟨rest, he.symm⟩

theorem isWithin_append (dir rest : Name) : Name.isWithin (dir ++ rest) dir = true :=
  isWithin_iff.2 ⟨rest, rfl⟩

theorem along_append (a b rest : Name) : Name.along (a ++ rest) a b = b ++ rest := by
  rw [Name.along, if_pos (isWithin_append a rest), List.drop_left]

theorem along_of_not_within (h : ¬ Name.isWithin n a = true) (b : Name) : n.along a b = n :=
  if_neg h

/-- What stands in something stands in a directory. -/
theorem IsTree.isDirectory_of_append (hd : d.IsTree) (hrest : rest ≠ [])
    (h : d.node? (dir ++ rest) = some node) : d.IsDirectory dir := by
  induction rest using List.reverseRecOn generalizing node with
  | nil => exact absurd rfl hrest
  | append_singleton rest last ih =>
    rw [← List.append_assoc] at h
    obtain ⟨writable, hparent⟩ := hd.parent h
    cases rest with
    | nil => exact ⟨writable, by rwa [List.append_nil] at hparent⟩
    | cons text rest => exact ih (List.cons_ne_nil text rest) hparent

/-- Nothing stands in what is not a directory. -/
theorem IsTree.eq_of_within (hd : d.IsTree) (hb : ¬ d.IsDirectory b) (hn : Name.isWithin n b = true)
    (h : d.node? n = some node) : n = b := by
  obtain ⟨rest, rfl⟩ := isWithin_iff.1 hn
  by_cases hrest : rest = []
  · rw [hrest, List.append_nil]
  · exact absurd (hd.isDirectory_of_append hrest h) hb

/-! ## What is listed -/

/-- The names that are listed are different ones, and none of them is that of the root. -/
def ListsOnce (d : Disk) : Prop :=
  ([] :: d.entries.map Prod.fst).Nodup

/-- A tree that lists each name once, and not that of the root. -/
structure Tidy (d : Disk) : Prop extends IsTree d where
  once : d.ListsOnce

theorem ListsOnce.mem_entries_iff (h : d.ListsOnce) :
    (n, node) ∈ d.entries ↔ n ≠ [] ∧ d.node? n = some node := by
  obtain ⟨hroot, hnodup⟩ := List.nodup_cons.1 h
  constructor
  · intro hmem
    have hn : n ≠ [] := fun he => hroot (he ▸ List.mem_map_of_mem (f := Prod.fst) hmem)
    refine ⟨hn, ?_⟩
    rw [node?_of_ne_nil d hn, List.lookup_eq_some_iff]
    obtain ⟨before, after, hentries⟩ := List.append_of_mem hmem
    refine ⟨before, after, hentries, fun e he => ?_⟩
    rw [hentries, List.map_append, List.map_cons, List.nodup_append] at hnodup
    rw [bne_iff_ne]
    exact (hnodup.2.2 e.1 (List.mem_map_of_mem he) n List.mem_cons_self).symm
  · rintro ⟨hn, hnode⟩
    rw [node?_of_ne_nil d hn, List.lookup_eq_some_iff] at hnode
    obtain ⟨before, after, hentries, -⟩ := hnode
    rw [hentries]
    exact List.mem_append_right _ List.mem_cons_self

/-- What is in a file. -/
def Node.content? : Node → Option Content
  | .file content _ => some content
  | _ => none

/-- What is in the files that are listed, file by file. -/
def contents (d : Disk) : List Content :=
  d.entries.filterMap fun e => e.2.content?

/-! ## New content for a file, and new directories -/

theorem here_set (d : Disk) (n : Name) (node : Node) : (d.set n node).here = d.here := by
  rw [set]
  split <;> rfl

theorem set_of_free (hn : n ≠ []) (h : d.node? n = none) (node : Node) :
    d.set n node = { d with entries := d.entries ++ [(n, node)] } := by
  rw [node?_of_ne_nil d hn] at h
  rw [set, h, Option.isSome_none, if_neg Bool.false_ne_true]

/-- What stands somewhere stays when something is put where nothing stands. -/
theorem node?_set_of_free (hfree : d.node? n = none) (hm : d.node? m = some node) (new : Node) :
    (d.set n new).node? m = some node := by
  have hn : n ≠ [] := by
    rintro rfl
    cases hfree
  rw [node?_set d hn, if_neg, hm]
  rintro rfl
  rw [hfree] at hm
  cases hm

theorem ListsOnce.set (h : d.ListsOnce) (hn : n ≠ []) (node : Node) : (d.set n node).ListsOnce := by
  cases hold : d.node? n with
  | none =>
    have hnew : n ∉ d.entries.map Prod.fst := by
      intro hmem
      obtain ⟨e, he, rfl⟩ := List.mem_map.1 hmem
      rw [(h.mem_entries_iff.1 he).2] at hold
      cases hold
    rw [ListsOnce, set_of_free hn hold, List.map_append, ← List.cons_append, List.nodup_append]
    refine ⟨h, List.pairwise_singleton .., fun x hx y hy he => ?_⟩
    obtain rfl : y = n := List.mem_singleton.1 hy
    rcases List.mem_cons.1 hx with rfl | hx
    · exact hn he.symm
    · exact hnew (he ▸ hx)
  | some old =>
    -- the entry is replaced in its place, so the names are listed as before
    rw [node?_of_ne_nil d hn] at hold
    have hnames : (fun e : Name × Node => (if e.1 = n then (n, node) else e).1) = Prod.fst := by
      funext e
      split
      · exact Eq.symm ‹_›
      · rfl
    rw [ListsOnce, Disk.set, hold, Option.isSome_some, if_pos rfl, List.map_map]
    exact (congrArg (fun f => ([] :: d.entries.map f).Nodup) hnames).mpr h

/-- What is put where nothing stands, in a directory, keeps a disk tidy. -/
theorem Tidy.put (h : d.Tidy) (hdir : d.IsDirectory dir) (hfree : d.node? (dir ++ [last]) = none)
    (node : Node) : (d.set (dir ++ [last]) node).Tidy := by
  have hne : dir ++ [last] ≠ [] := List.concat_ne_nil last dir
  have hkeep : ∀ {n}, d.IsDirectory n → (d.set (dir ++ [last]) node).IsDirectory n := by
    rintro n ⟨writable, hn⟩
    exact ⟨writable, node?_set_of_free hfree hn node⟩
  refine ⟨⟨?_, fun {dir' last' node'} hnode => ?_⟩, h.once.set hne node⟩
  · rw [here_set]
    exact hkeep h.here
  · rw [node?_set d hne] at hnode
    split at hnode
    · rename_i he
      obtain ⟨rfl, -⟩ := List.append_inj' he rfl
      exact hkeep hdir
    · exact hkeep (h.parent hnode)

/-- A file that takes the place of another one, or of a link, keeps a disk tidy. -/
theorem Tidy.replace (h : d.Tidy) (hn : d.node? n = some node) (hfile : ¬ d.IsDirectory n)
    (content : Content) : (d.set n (.file content true)).Tidy := by
  have hne : n ≠ [] := fun he => hfile (he ▸ d.isDirectory_nil)
  exact ⟨(replaces_set hn hfile content).isTree h.toIsTree, h.once.set hne _⟩

theorem contents_make (hfree : d.node? (dir ++ [last]) = none) (writable : Bool) :
    (d.set (dir ++ [last]) (.directory writable)).contents = d.contents := by
  have hne : dir ++ [last] ≠ [] := List.concat_ne_nil last dir
  rw [set_of_free hne hfree, contents, List.filterMap_append]
  exact List.append_nil _

/-! ## Names that take the place of others -/

/-- What stands under `a` can stand under `b`: neither of them lies in the other, and `b` lies in a
directory, where at most a link stands under it. -/
structure Movable (d : Disk) (a b : Name) : Prop where
  source : ∃ node, d.node? a = some node
  out : ¬ Name.isWithin b a = true
  off : ¬ Name.isWithin a b = true
  parent : d.IsDirectory b.dropLast
  clear : ∀ node, d.node? b = some node → ∃ target, node = .link target

namespace Movable

variable (h : d.Movable a b)

include h

theorem not_isDirectory : ¬ d.IsDirectory b := by
  rintro ⟨writable, hdir⟩
  obtain ⟨target, he⟩ := h.clear _ hdir
  cases he

theorem ne_nil : a ≠ [] ∧ b ≠ [] := by
  constructor
  · rintro rfl
    exact h.out (isWithin_append [] b)
  · rintro rfl
    exact h.off (isWithin_append [] a)

/-- An entry other than `b` is not in it, so its new name is not that of another entry. -/
theorem not_within (hd : d.Tidy) (hn : d.node? n = some node) (hne : n ≠ b) :
    ¬ Name.isWithin n b = true :=
  fun hin => hne (hd.eq_of_within h.not_isDirectory hin hn)

theorem along_injective (hd : d.Tidy) {other : Node} (hn : d.node? n = some node) (hnb : n ≠ b)
    (hm : d.node? m = some other) (hmb : m ≠ b) (he : n.along a b = m.along a b) : n = m := by
  -- what is moved lands in `b`, where no other entry can be
  have hmixed : ∀ {n m : Name} {node : Node}, d.node? m = some node → m ≠ b →
      Name.isWithin n a = true → ¬ Name.isWithin m a = true → n.along a b ≠ m.along a b := by
    intro n m node hm hmb hna hma he
    obtain ⟨rest, rfl⟩ := isWithin_iff.1 hna
    rw [along_append, along_of_not_within hma] at he
    exact h.not_within hd hm hmb (isWithin_iff.2 ⟨rest, he.symm⟩)
  by_cases hna : Name.isWithin n a = true
  · by_cases hma : Name.isWithin m a = true
    · obtain ⟨rest, rfl⟩ := isWithin_iff.1 hna
      obtain ⟨rest', rfl⟩ := isWithin_iff.1 hma
      rw [along_append, along_append] at he
      rw [List.append_cancel_left he]
    · exact absurd he (hmixed hm hmb hna hma)
  · by_cases hma : Name.isWithin m a = true
    · exact absurd he.symm (hmixed hn hnb hma hna)
    · rwa [along_of_not_within hna, along_of_not_within hma] at he

theorem along_ne_nil (hn : n ≠ []) : n.along a b ≠ [] := by
  rw [Name.along]
  split
  · exact List.append_ne_nil_of_left_ne_nil h.ne_nil.2 _
  · exact hn

theorem along_nil : Name.along [] a b = [] := by
  refine along_of_not_within (fun hin => ?_) b
  obtain ⟨rest, he⟩ := isWithin_iff.1 hin
  exact h.ne_nil.1 (List.append_eq_nil_iff.1 he.symm).1

omit h in
theorem mem_entries_relocate : (n, node) ∈ (d.relocate a b).entries ↔
    ∃ m, (m, node) ∈ d.entries ∧ m ≠ b ∧ m.along a b = n := by
  simp only [relocate, List.mem_map, List.mem_filter, decide_eq_true_eq, Prod.mk.injEq,
    Prod.exists]
  constructor
  · rintro ⟨m, node', ⟨hmem, hne⟩, he, rfl⟩
    exact ⟨m, hmem, hne, he⟩
  · rintro ⟨m, hmem, hne, he⟩
    exact ⟨m, node, ⟨hmem, hne⟩, he, rfl⟩

theorem listsOnce (hd : d.Tidy) : (d.relocate a b).ListsOnce := by
  obtain ⟨hroot, hnodup⟩ := List.nodup_cons.1 hd.once
  refine List.nodup_cons.2 ⟨fun hmem => ?_, ?_⟩
  · obtain ⟨⟨n, node⟩, he, rfl⟩ := List.mem_map.1 hmem
    obtain ⟨m, hm, -, hnil⟩ := mem_entries_relocate.1 he
    exact h.along_ne_nil (hd.once.mem_entries_iff.1 hm).1 hnil
  · have hentries : d.entries.Nodup := List.Nodup.of_map Prod.fst hnodup
    rw [relocate, List.map_map]
    refine List.Nodup.map_on ?_ (hentries.filter _)
    rintro ⟨n, node⟩ hn ⟨m, other⟩ hm he
    obtain ⟨hn, hnb⟩ := List.mem_filter.1 hn
    obtain ⟨hm, hmb⟩ := List.mem_filter.1 hm
    have hnode := (hd.once.mem_entries_iff.1 hn).2
    have hother := (hd.once.mem_entries_iff.1 hm).2
    obtain rfl := h.along_injective hd hnode (of_decide_eq_true hnb) hother (of_decide_eq_true hmb) he
    rw [Option.some.inj (hnode.symm.trans hother)]

/-- **Each entry stands under its new name**, but the link that has given way. -/
theorem node?_along (hd : d.Tidy) (hn : d.node? n = some node) (hne : n ≠ b) :
    (d.relocate a b).node? (n.along a b) = some node := by
  by_cases hnil : n = []
  · rw [hnil] at hn ⊢
    rw [h.along_nil]
    exact hn
  · have hmem := hd.once.mem_entries_iff.2 ⟨hnil, hn⟩
    exact ((h.listsOnce hd).mem_entries_iff.1 (mem_entries_relocate.2 ⟨n, hmem, hne, rfl⟩)).2

/-- **Each entry has stood under its old name.** -/
theorem exists_along (hd : d.Tidy) (hn : (d.relocate a b).node? n = some node) :
    ∃ m, m ≠ b ∧ m.along a b = n ∧ d.node? m = some node := by
  by_cases hnil : n = []
  · rw [hnil] at hn ⊢
    exact ⟨[], h.ne_nil.2.symm, h.along_nil, hn⟩
  · obtain ⟨m, hmem, hne, he⟩ :=
      mem_entries_relocate.1 ((h.listsOnce hd).mem_entries_iff.2 ⟨hnil, hn⟩)
    exact ⟨m, hne, he, (hd.once.mem_entries_iff.1 hmem).2⟩

theorem isDirectory_along (hd : d.Tidy) (hn : d.IsDirectory n) :
    (d.relocate a b).IsDirectory (n.along a b) := by
  have hne : n ≠ b := fun he => h.not_isDirectory (he ▸ hn)
  obtain ⟨writable, hnode⟩ := hn
  exact ⟨writable, h.node?_along hd hnode hne⟩

/-- **A move keeps a disk tidy.** -/
theorem tidy (hd : d.Tidy) : (d.relocate a b).Tidy := by
  refine ⟨⟨h.isDirectory_along hd hd.here, fun {dir last node} hnode => ?_⟩, h.listsOnce hd⟩
  obtain ⟨m, hne, he, hm⟩ := h.exists_along hd hnode
  by_cases hma : Name.isWithin m a = true
  · obtain ⟨rest, rfl⟩ := isWithin_iff.1 hma
    rw [along_append] at he
    cases rest using List.reverseRecOn with
    | nil =>
      -- what is moved itself lies where `b` lies
      rw [List.append_nil] at he
      have hparent := h.parent
      rw [he, List.dropLast_concat] at hparent
      have hout : ¬ Name.isWithin dir a = true := by
        intro hin
        obtain ⟨rest, rfl⟩ := isWithin_iff.1 hin
        rw [List.append_assoc] at he
        exact h.out (isWithin_iff.2 ⟨_, he⟩)
      rw [← along_of_not_within hout b]
      exact h.isDirectory_along hd hparent
    | append_singleton rest text =>
      rw [← List.append_assoc] at he hm
      obtain ⟨rfl, -⟩ := List.append_inj' he rfl
      rw [← along_append a b rest]
      exact h.isDirectory_along hd (hd.parent hm)
  · -- what stays lies where it lay, and that has not been moved either
    rw [along_of_not_within hma] at he
    subst he
    have hout : ¬ Name.isWithin dir a = true := by
      intro hin
      obtain ⟨rest, rfl⟩ := isWithin_iff.1 hin
      exact hma (isWithin_iff.2 ⟨rest ++ [last], List.append_assoc ..⟩)
    rw [← along_of_not_within hout b]
    exact h.isDirectory_along hd (hd.parent hm)

/-- **A move keeps what the files hold.** -/
theorem contents_relocate (hd : d.Tidy) : (d.relocate a b).contents = d.contents := by
  rw [contents, contents, relocate, List.filterMap_map, List.filterMap_filter]
  refine List.filterMap_congr fun e he => ?_
  by_cases hb : e.1 = b
  · -- what gives way is a link, and there is no content in it
    obtain ⟨n, node⟩ := e
    obtain ⟨target, rfl⟩ := h.clear node (hb ▸ (hd.once.mem_entries_iff.1 he).2)
    simp [Node.content?]
  · simp [hb]

end Movable

end PhpRename.Disk
