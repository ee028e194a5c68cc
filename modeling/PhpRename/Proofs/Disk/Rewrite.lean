import PhpRename.Disk.Access
import PhpRename.Proofs.Disk.Walk
import PhpRename.Proofs.Path.Parts

/-!
# Rewriting a file

A file that can be read and is rewritten holds the new text (`Rewritten.find_eq`), and paths that
lead elsewhere lead to what they led to (`Rewritten.place_eq`), whatever links there are.

* `Disk.Rewritten`: the file under a path, or a link to it, has given way to a file with new text.
* `rewritten_of_read`: what `rewrite` does to a file that can be read.
* `Disk.Rewritable`: whether it does, which the text does not matter for (`exists_rewrite_iff`).
* `Disk.Separate`: paths that lead to separate files, which stay separate.
-/

namespace PhpRename.Disk

variable {d d' : Disk} {p q : Path} {follow : Bool} {n r : Name} {node : Node} {old new : String}

/-! ## Places and walks -/

/-- The path can be followed at all. -/
def Walkable (p : Path) : Prop :=
  p.spelling.toList.contains '\x00' = false ∧ p.spelling ≠ "" ∧ p.spelling.utf8ByteSize < maxSpelling

/-- The directory in which a walk along the path begins. -/
def walkStart (d : Disk) (p : Path) : Name :=
  if p.isAbsolute then [] else d.here

theorem place_eq_walk (h : Walkable p) (d : Disk) (follow : Bool) : d.place follow p =
    d.walk follow maxLinks (d.walkStart p) (Path.segments p.spelling.toList) := by
  obtain ⟨hnul, hne, hlong⟩ := h
  rw [place, hnul, if_neg Bool.false_ne_true, if_neg hne, if_neg (Nat.not_le.2 hlong)]
  rfl

theorem walkable_of_place {place : Place} (h : d.place follow p = .ok place) : Walkable p := by
  rw [Disk.place] at h
  split at h
  · cases h
  rename_i hnul
  split at h
  · cases h
  rename_i hne
  split at h
  · cases h
  rename_i hlong
  exact ⟨Bool.eq_false_iff.2 hnul, hne, Nat.lt_of_not_le hlong⟩

/-- What cannot be followed leads nowhere on any disk. -/
theorem place_of_not_walkable (h : ¬ Walkable p) (d d' : Disk) (follow : Bool) :
    d'.place follow p = d.place follow p := by
  rw [place, place]
  split
  · rfl
  rename_i hnul
  split
  · rfl
  rename_i hne
  split
  · rfl
  rename_i hlong
  exact absurd ⟨Bool.eq_false_iff.2 hnul, hne, Nat.lt_of_not_le hlong⟩ h

theorem IsTree.isDirectory_walkStart (hd : d.IsTree) (p : Path) : d.IsDirectory (d.walkStart p) := by
  rw [walkStart]
  split
  · exact d.isDirectory_nil
  · exact hd.here

theorem find_eq_ok : d.find p = .ok (r, node) ↔ d.place true p = .ok (.taken r node) := by
  rw [find]
  cases d.place true p with
  | error fault => simp
  | ok place => cases place <;> simp

theorem read_eq_ok : d.read p = .ok old ↔
    ∃ r writable, d.find p = .ok (r, .file (.text old) writable) := by
  rw [read]
  split
  · rename_i s writable hfind
    simp [hfind]
  all_goals rename_i hfind; simp [hfind]

/-- What a path leads to decides what is read. -/
theorem read_congr (h : d'.place true p = d.place true p) : d'.read p = d.read p := by
  rw [read, read, find, find, h]

/-- A path leads to what stands there, which is no link. -/
theorem node?_of_find (hd : d.IsTree) (h : d.find p = .ok (r, node)) :
    d.node? r = some node ∧ ∀ target, node ≠ .link target := by
  have hplace := find_eq_ok.1 h
  rw [place_eq_walk (walkable_of_place hplace)] at hplace
  obtain ⟨hnode, hlink⟩ := node?_of_walk hd (hd.isDirectory_walkStart p) hplace
  exact ⟨hnode, hlink rfl⟩

/-- Where a path leads that names an entry of the root. -/
theorem place_in_root (name : String) (hname : IsEntryName name.toList)
    (hchars : '/' ∉ name.toList ∧ '\x00' ∉ name.toList) (hsize : name.utf8ByteSize ≤ maxName)
    (d : Disk) (follow : Bool) :
    d.place follow ⟨"/" ++ name⟩ = d.enter follow maxLinks [] name [] (d.node? [name]) := by
  have hwalk : Walkable ⟨"/" ++ name⟩ := by
    have hlength : ("/" ++ name).utf8ByteSize = 1 + name.utf8ByteSize := String.utf8ByteSize_append
    rw [maxName] at hsize
    refine ⟨by simp [hchars.2], by simp, ?_⟩
    rw [maxSpelling, hlength]
    omega
  have hpieces : Path.segments ("/" ++ name).toList = [[], name.toList] := by
    rw [String.toList_append, ← Path.segments_of_not_mem hchars.1]
    rfl
  rw [place_eq_walk hwalk, walkStart, if_pos (by simp [Path.isAbsolute]), hpieces, walk_blank (.inl rfl),
    walk_name hname, String.ofList_toList, if_neg (Nat.not_lt.2 hsize)]
  rfl

/-! ## Rewriting -/

/-- The path names `n`, under which stood the file `r` or a link to it. Now a file with the new text
stands there, and nothing else is changed. -/
structure Rewritten (d d' : Disk) (p : Path) (new : String) (n r : Name) : Prop where
  replaces : d.Replaces d' n (.text new)
  leads : d.LeadsTo r n
  named : ∃ node, d.place false p = .ok (.taken n node)
  found : ∃ node, d.find p = .ok (r, node)

/-- What a path names that leads to a file which can be read: the file, or a link to it. -/
theorem exists_leadsTo_of_read (hd : d.IsTree) (hread : d.read p = .ok old) :
    ∃ r n writable there, d.find p = .ok (r, .file (.text old) writable) ∧
      d.place false p = .ok (.taken n there) ∧ d.node? n = some there ∧ d.LeadsTo r n := by
  obtain ⟨r, writable, hfind⟩ := read_eq_ok.1 hread
  have hr : ¬ d.IsDirectory r := by
    rintro ⟨writable', hdir⟩
    rw [(node?_of_find hd hfind).1] at hdir
    cases hdir
  have hplace := find_eq_ok.1 hfind
  have hwalk := walkable_of_place hplace
  have hstart := hd.isDirectory_walkStart p
  rw [place_eq_walk hwalk] at hplace
  obtain ⟨n, there, htaken, hleads⟩ := exists_leadsTo_of_walk hd hstart hr hplace
  exact ⟨r, n, writable, there, hfind, (place_eq_walk hwalk d false).trans htaken,
    (node?_of_walk hd hstart htaken).1, hleads⟩

/-- **What rewriting does to a file that can be read.** -/
theorem rewritten_of_read (hd : d.IsTree) (hread : d.read p = .ok old)
    (h : d.rewrite p new = .ok d') : ∃ n r, d.Rewritten d' p new n r := by
  obtain ⟨r, n, writable, there, hfind, htaken, hnode, hleads⟩ := exists_leadsTo_of_read hd hread
  rw [rewrite, htaken] at h
  split at h
  · cases h
  split at h
  · cases h
  split at h
  · cases h
  split at h
  · cases h
  · rename_i he
    cases he
    cases h
    exact ⟨n, r, replaces_set hnode hleads.not_isDirectory _, hleads, ⟨there, htaken⟩, _, hfind⟩
  · rename_i he
    cases he
  · rename_i he
    cases he

/-- What the path leads to may be changed, and the names that a rewriting takes are not too long. -/
structure Rewritable (d : Disk) (p : Path) : Prop where
  unlocked : d.isLocked p = false
  name : (p.fileName?.getD "").utf8ByteSize + draftLength ≤ maxName
  spelling : p.spelling.utf8ByteSize + draftLength < maxSpelling

/-- **Whether a file that can be read can be rewritten** does not depend on the text. -/
theorem exists_rewrite_iff (hd : d.IsTree) (hread : d.read p = .ok old) :
    (∃ d', d.rewrite p new = .ok d') ↔ d.Rewritable p := by
  constructor
  · rintro ⟨d', h⟩
    rw [rewrite] at h
    split at h
    · cases h
    rename_i hlocked
    split at h
    · cases h
    rename_i hname
    split at h
    · cases h
    rename_i hspelling
    exact ⟨Bool.eq_false_iff.2 hlocked, Nat.le_of_not_lt hname, Nat.lt_of_not_le hspelling⟩
  · intro h
    obtain ⟨r, n, writable, there, -, htaken, hnode, hleads⟩ := exists_leadsTo_of_read hd hread
    rw [rewrite, h.unlocked, if_neg Bool.false_ne_true, if_neg (Nat.not_lt.2 h.name),
      if_neg (Nat.not_le.2 h.spelling), htaken]
    cases there with
    | file content writable' => exact ⟨_, rfl⟩
    | link target => exact ⟨_, rfl⟩
    | directory writable' => exact absurd ⟨writable', hnode⟩ hleads.not_isDirectory

theorem Rewritable.congr (h : d.Rewritable p) (hplace : d'.place true p = d.place true p) :
    d'.Rewritable p := by
  have hlocked : d'.isLocked p = d.isLocked p := by
    rw [isLocked, isLocked, find, find, hplace]
  exact ⟨hlocked.trans h.unlocked, h.name, h.spelling⟩

namespace Rewritten

/-- **A file that is rewritten holds the new text.** -/
theorem find_eq (h : d.Rewritten d' p new n r) (hd : d.IsTree) :
    d'.find p = .ok (n, .file (.text new) true) := by
  obtain ⟨node, hnamed⟩ := h.named
  have hwalk := walkable_of_place hnamed
  have hstart : d'.walkStart p = d.walkStart p := by
    rw [walkStart, walkStart, h.replaces.here]
  rw [find_eq_ok, place_eq_walk hwalk, hstart]
  rw [place_eq_walk hwalk] at hnamed
  exact walk_at_name hd h.replaces h.leads (hd.isDirectory_walkStart p) hnamed true

theorem read_eq (h : d.Rewritten d' p new n r) (hd : d.IsTree) : d'.read p = .ok new :=
  read_eq_ok.2 ⟨n, true, h.find_eq hd⟩

/-- **Paths that lead elsewhere** lead to what they led to. -/
theorem place_eq (h : d.Rewritten d' p new n r) (hd : d.IsTree)
    (hlinks : d.place true q ≠ .error .tooManyLinks)
    (hother : ∀ m node, d.find q = .ok (m, node) → m ≠ r) : d'.place true q = d.place true q := by
  by_cases hwalk : Walkable q
  swap
  · exact place_of_not_walkable hwalk d d' true
  have hstart : d'.walkStart q = d.walkStart q := by
    rw [walkStart, walkStart, h.replaces.here]
  have hplace := place_eq_walk hwalk d true
  rw [place_eq_walk hwalk d' true, hstart, hplace]
  rw [hplace] at hlinks
  rcases walk_elsewhere hd h.replaces h.leads (hd.isDirectory_walkStart q) with hsame | hmany |
    ⟨m, node, hends, hm⟩
  · exact hsame
  · exact absurd hmany hlinks
  · rcases hm with rfl | ⟨hfollow, -⟩
    · exact absurd rfl (hother _ node (find_eq_ok.2 (hplace.trans hends)))
    · cases hfollow

/-- What another path leads to is not what the rewritten path names. -/
theorem ne_of_find (h : d.Rewritten d' p new n r) (hd : d.IsTree) {m : Name}
    (hq : d.find q = .ok (m, node)) (hne : m ≠ r) : m ≠ n := by
  rintro rfl
  obtain ⟨hnode, hlink⟩ := node?_of_find hd hq
  cases h.leads with
  | file => exact hne rfl
  | link _ target left there hthere =>
    rw [hnode] at hthere
    exact hlink target (Option.some.inj hthere)

end Rewritten

/-! ## Separate files -/

/-- The paths lead to separate files, and none of them through too many links. -/
structure Separate (d : Disk) (paths : List Path) : Prop where
  links : ∀ p ∈ paths, d.place true p ≠ .error .tooManyLinks
  ends : ∀ p ∈ paths, ∀ q ∈ paths, p ≠ q → ∀ m node m' node', d.find p = .ok (m, node) →
    d.find q = .ok (m', node') → m ≠ m'

theorem Separate.mono {paths paths' : List Path} (h : d.Separate paths)
    (hsub : ∀ p ∈ paths', p ∈ paths) : d.Separate paths' :=
  ⟨fun p hp => h.links p (hsub p hp), fun p hp q hq => h.ends p (hsub p hp) q (hsub q hq)⟩

/-- **Rewriting one of separate files** does nothing to the others, and they stay separate. -/
theorem Rewritten.separate {paths : List Path} (h : d.Rewritten d' p new n r) (hd : d.IsTree)
    (hsep : d.Separate paths) (hp : p ∈ paths) :
    d'.Separate paths ∧ ∀ q ∈ paths, q ≠ p → d'.place true q = d.place true q := by
  obtain ⟨there, hfound⟩ := h.found
  have hother : ∀ q ∈ paths, q ≠ p → d'.place true q = d.place true q := fun q hq hne =>
    h.place_eq hd (hsep.links q hq) fun m node hm => hsep.ends q hq p hp hne m node r there hm hfound
  have hfind : ∀ q ∈ paths, q ≠ p → d'.find q = d.find q := by
    intro q hq hne
    rw [find, find, hother q hq hne]
  have hown := h.find_eq hd
  -- the name of the rewritten file is not where another path leads
  have hname : ∀ q ∈ paths, q ≠ p → ∀ m node, d'.find q = .ok (m, node) → m ≠ n := by
    intro q hq hne m node hm
    rw [hfind q hq hne] at hm
    exact h.ne_of_find hd hm (hsep.ends q hq p hp hne m node r there hm hfound)
  refine ⟨⟨fun q hq => ?_, fun q hq q' hq' hne m node m' node' hm hm' => ?_⟩, hother⟩
  · by_cases he : q = p
    · subst he
      rw [find_eq_ok.1 hown]
      exact nofun
    · rw [hother q hq he]
      exact hsep.links q hq
  · by_cases he : q = p
    · subst he
      rw [hown] at hm
      cases hm
      exact (hname q' hq' (Ne.symm hne) m' node' hm').symm
    · by_cases he' : q' = p
      · subst he'
        rw [hown] at hm'
        cases hm'
        exact hname q hq he m node hm
      · rw [hfind q hq he] at hm
        rw [hfind q' hq' he'] at hm'
        exact hsep.ends q hq q' hq' hne m node m' node' hm hm'

end PhpRename.Disk
