import PhpRename.Proofs.Disk.Make
import PhpRename.Proofs.Path.Relation

/-!
# File trees without links

In a tidy disk without symbolic links a path leads exactly to what it names: nothing stands on the way
but directories, so each name in the path is one step down.

* `Disk.FileTree`: a tidy disk without links, whose entries have names that can be written in a path.
* `Name.path_eq_ofParts`, `exists_name`: every path that is read from the working directory is the path
  of a name.
* `FileTree.walk_eq_ok_iff`: where a walk along names ends.
* `FileTree.find_eq_ok_iff`: **what the path of a name leads to**.
-/

namespace PhpRename.Disk

open PhpRename.Path (Part)

variable {d : Disk} {p : Path} {n m dir rest : Name} {node : Node} {text : String}

/-! ## Paths of names -/

/-- Each text can stand between the slashes of a path. -/
def Name.Plain (n : Name) : Prop :=
  ∀ text ∈ n, (Part.name text).Plain

theorem Name.Plain.append (hn : Name.Plain n) (hm : Name.Plain m) : Name.Plain (n ++ m) :=
  List.forall_mem_append.2 ⟨hn, hm⟩

theorem Name.Plain.of_append (h : Name.Plain (n ++ m)) : Name.Plain n ∧ Name.Plain m :=
  List.forall_mem_append.1 h

theorem segments_intercalate (hn : Name.Plain n) (hne : n ≠ []) :
    Path.segments (String.intercalate "/" n).toList = n.map String.toList := by
  induction n with
  | nil => exact absurd rfl hne
  | cons text n ih =>
    rw [Name.Plain, List.forall_mem_cons] at hn
    cases n with
    | nil =>
      rw [String.intercalate_singleton, Path.segments_of_not_mem hn.1.1]
      rfl
    | cons text' n =>
      have hslash : ("/" : String).toList = ['/'] := rfl
      rw [String.intercalate_cons_cons, String.toList_append, String.toList_append, hslash,
        List.append_assoc, List.singleton_append, Path.segments_append_slash,
        Path.segments_of_not_mem hn.1.1, ih hn.2 (List.cons_ne_nil text' n)]
      rfl

theorem toList_path (n : Name) :
    n.path.spelling.toList = '/' :: (String.intercalate "/" n).toList := by
  rw [Name.path, String.toList_append]
  rfl

/-- The path of a name, in its pieces. -/
theorem segments_path (hn : Name.Plain n) :
    ∃ blanks, (∀ piece ∈ blanks, Part.ofSegment? piece = none) ∧
    Path.segments n.path.spelling.toList = blanks ++ n.map String.toList := by
  rw [toList_path, Path.segments_slash]
  by_cases hne : n = []
  · exact ⟨[[], []], by simp [Part.ofSegment?], by rw [hne]; rfl⟩
  · exact ⟨[[]], by simp [Part.ofSegment?], by rw [segments_intercalate hn hne]; rfl⟩

theorem mem_intercalate {c : Char} (h : c ∈ (String.intercalate "/" n).toList) :
    c = '/' ∨ ∃ text ∈ n, c ∈ text.toList := by
  induction n with
  | nil => cases h
  | cons text n ih =>
    cases n with
    | nil =>
      rw [String.intercalate_singleton] at h
      exact .inr ⟨text, List.mem_cons_self, h⟩
    | cons text' n =>
      have hslash : ("/" : String).toList = ['/'] := rfl
      rw [String.intercalate_cons_cons, String.toList_append, String.toList_append, hslash,
        List.append_assoc, List.mem_append, List.singleton_append, List.mem_cons] at h
      rcases h with h | h | h
      · exact .inr ⟨text, List.mem_cons_self, h⟩
      · exact .inl h
      · rcases ih h with hc | ⟨found, hfound, hc⟩
        · exact .inl hc
        · exact .inr ⟨found, List.mem_cons_of_mem _ hfound, hc⟩

/-- Names that are joined end in their last name, and so not in a slash. -/
theorem getLast?_intercalate (hn : Name.Plain n) (hne : n ≠ []) :
    ∃ c, (String.intercalate "/" n).toList.getLast? = some c ∧ c ≠ '/' := by
  obtain ⟨front, last, rfl⟩ := (List.eq_nil_or_concat n).resolve_left hne
  rw [List.concat_eq_append] at hn ⊢
  have hlast : (Part.name last).Plain := hn last (List.mem_append_right _ (List.mem_singleton_self last))
  have hend : ∃ before, (String.intercalate "/" (front ++ [last])).toList = before ++ last.toList := by
    by_cases hfront : front = []
    · exact ⟨[], by rw [hfront, List.nil_append, String.intercalate_singleton, List.nil_append]⟩
    · rw [String.intercalate_append_of_ne_nil hfront (List.cons_ne_nil last []),
        String.intercalate_singleton, String.toList_append]
      exact ⟨_, rfl⟩
  obtain ⟨before, hend⟩ := hend
  rw [hend, List.getLast?_append_of_ne_nil before hlast.2.1, List.getLast?_eq_getLast_of_ne_nil hlast.2.1]
  exact ⟨_, rfl, fun he => hlast.1 (he ▸ List.getLast_mem hlast.2.1)⟩

/-- **Names that are joined one by one**, from nowhere or from the root. -/
theorem foldl_join_names {start : String} (hstart : start = "" ∨ start = "/") (hn : Name.Plain n) :
    n.foldl (fun p text => p.join ⟨text⟩) (⟨start⟩ : Path) =
      ⟨start ++ String.intercalate "/" n⟩ := by
  induction n using List.reverseRecOn with
  | nil => rw [List.foldl_nil, String.intercalate_nil, String.append_empty]
  | append_singleton n text ih =>
    have htext : (⟨text⟩ : Path).isAbsolute = false := by
      rw [Path.isAbsolute, decide_eq_false_iff_not]
      have hplain := hn text (List.mem_append_right _ (List.mem_singleton_self text))
      exact fun hhead => hplain.1 (List.mem_of_mem_head? hhead)
    rw [List.foldl_append, ih hn.of_append.1, List.foldl_cons, List.foldl_nil, Path.join, htext,
      if_neg Bool.false_ne_true]
    by_cases hne : n = []
    · rw [hne, String.intercalate_nil, String.append_empty, if_pos, List.nil_append,
        String.intercalate_singleton]
      rcases hstart with rfl | rfl
      · exact .inl rfl
      · exact .inr rfl
    · obtain ⟨c, hlast, hc⟩ := getLast?_intercalate hn.of_append.1 hne
      have hlist : (start ++ String.intercalate "/" n).toList.getLast? = some c := by
        rw [String.toList_append, List.getLast?_append, hlast, Option.some_or]
      rw [if_neg, String.intercalate_append_of_ne_nil hne (List.cons_ne_nil text []),
        String.intercalate_singleton]
      · simp only [String.append_assoc]
      · rw [not_or, hlist]
        refine ⟨fun he => ?_, fun he => hc (Option.some.inj he)⟩
        have hempty : start ++ String.intercalate "/" n = "" := he
        rw [hempty] at hlist
        cases hlist

theorem ofParts_names (hn : Name.Plain n) :
    Path.ofParts (n.map Part.name) = ⟨String.intercalate "/" n⟩ := by
  have := foldl_join_names (.inl rfl) hn
  rw [String.empty_append] at this
  rw [Path.ofParts, List.foldl_map]
  exact this

/-- **The path of a name** is the plain spelling of its parts. -/
theorem path_eq_ofParts (hn : Name.Plain n) : n.path = Path.ofParts (.root :: n.map Part.name) := by
  have := foldl_join_names (.inr rfl) hn
  rw [Path.ofParts, List.foldl_cons, List.foldl_map, Name.path, ← this]
  rfl

theorem parts_path (hn : Name.Plain n) : n.path.parts = .root :: n.map Part.name := by
  rw [path_eq_ofParts hn]
  refine Path.parts_ofParts ⟨n.map Part.name, fun part hpart => ?_, .inr rfl⟩
  obtain ⟨text, htext, rfl⟩ := List.mem_map.1 hpart
  exact hn text htext

theorem isPlain_path (hn : Name.Plain n) : n.path.IsPlain := by
  rw [Path.IsPlain, parts_path hn, ← path_eq_ofParts hn]

theorem isAbsolute_path (n : Name) : n.path.isAbsolute = true := by
  rw [Path.isAbsolute, toList_path]
  rfl

theorem path_injective (hn : Name.Plain n) (hm : Name.Plain m) (h : n.path = m.path) : n = m := by
  have hparts := congrArg Path.parts h
  rw [parts_path hn, parts_path hm] at hparts
  exact List.map_injective_iff.2 (fun _ _ => Part.name.inj) (List.cons.inj hparts).2

/-- What is read from an absolute directory leads down from the root. -/
theorem rooted_absoluteFrom {dir : Path} (hdir : dir.isAbsolute = true) (p : Path) :
    Path.Rooted (Path.absoluteFrom dir p).parts := by
  cases hp : p.isAbsolute with
  | true =>
    rw [Path.absoluteFrom, if_pos hp]
    exact Path.rooted_normalize hp
  | false =>
    rw [Path.parts_absoluteFrom (Path.spelling_ne hdir) hp, Path.parts_of_isAbsolute hdir]
    exact Path.rooted_root.normalParts_append _

theorem exists_map_name {names : List Part} (h : Path.AreNames names) :
    ∃ n : Name, names = n.map Part.name := by
  induction names with
  | nil => exact ⟨[], rfl⟩
  | cons part names ih =>
    obtain ⟨text, rfl, hnames⟩ := h.of_cons
    obtain ⟨n, rfl⟩ := ih hnames
    exact ⟨text :: n, rfl⟩

/-- **What is read from the working directory is the path of a name.** -/
theorem exists_name (d : Disk) (p : Path) :
    ∃ n, Name.Plain n ∧ Path.absoluteFrom d.workingDirectory p = n.path := by
  obtain ⟨names, hnames, hparts⟩ := rooted_absoluteFrom (isAbsolute_path d.here) p
  obtain ⟨n, rfl⟩ := exists_map_name hnames
  have hn : Name.Plain n := fun text htext =>
    Path.plain_of_mem_parts (hparts ▸ List.mem_cons_of_mem _ (List.mem_map_of_mem htext))
  exact ⟨n, hn, by rw [path_eq_ofParts hn, ← hparts]; exact (Path.isPlain_absoluteFrom _ p).symm⟩

/-! ## Trees -/

/-- A file stands under the name. -/
def IsFile (d : Disk) (n : Name) : Prop :=
  ∃ content writable, d.node? n = some (.file content writable)

/-- The system takes the text for the name of an entry. -/
structure IsName (text : String) : Prop where
  plain : (Part.name text).Plain
  no_nul : '\x00' ∉ text.toList
  short : ¬ maxName < text.utf8ByteSize

/-- A tidy disk without symbolic links, whose entries have names that the system takes. -/
structure FileTree (d : Disk) : Prop extends Tidy d where
  names : ∀ e ∈ d.entries, ∀ text ∈ e.1, IsName text
  no_links : ∀ e ∈ d.entries, ∀ target, e.2 ≠ .link target

namespace FileTree

variable (hd : d.FileTree)

include hd

theorem isName (hn : d.node? n = some node) (htext : text ∈ n) : IsName text := by
  have hmem := hd.once.mem_entries_iff.2 ⟨List.ne_nil_of_mem htext, hn⟩
  exact hd.names _ hmem text htext

theorem plain (hn : d.node? n = some node) : Name.Plain n :=
  fun _ htext => (hd.isName hn htext).plain

theorem plain_of_isFile (h : d.IsFile n) : Name.Plain n := by
  obtain ⟨content, writable, hn⟩ := h
  exact hd.plain hn

theorem plain_of_isDirectory (h : d.IsDirectory n) : Name.Plain n := by
  obtain ⟨writable, hn⟩ := h
  exact hd.plain hn

theorem ne_link (hn : d.node? n = some node) (target : String) : node ≠ .link target := by
  by_cases hnil : n = []
  · rw [hnil] at hn
    cases hn
    exact Node.noConfusion
  · exact hd.no_links _ (hd.once.mem_entries_iff.2 ⟨hnil, hn⟩) target

/-- **Where a walk along names ends.** -/
theorem walk_eq_ok_iff {follow : Bool} {links : Nat} (hdir : d.IsDirectory dir)
    (hrest : Name.Plain rest) :
    d.walk follow links dir (rest.map String.toList) = .ok (.taken n node) ↔
      n = dir ++ rest ∧ d.node? (dir ++ rest) = some node := by
  induction rest generalizing dir with
  | nil =>
    obtain ⟨writable, hnode⟩ := hdir
    rw [List.map_nil, walk, hnode, List.append_nil, hnode]
    simp only [Except.ok.injEq, Place.taken.injEq, Option.some.injEq]
    rw [eq_comm (a := dir)]
  | cons text rest ih =>
    rw [Name.Plain, List.forall_mem_cons] at hrest
    have hcons : dir ++ text :: rest = dir ++ [text] ++ rest := by rw [List.append_assoc]; rfl
    rw [List.map_cons, walk_name hrest.1.2, String.ofList_toList, hcons]
    by_cases hlong : maxName < text.utf8ByteSize
    · rw [if_pos hlong]
      refine iff_of_false (fun h => by cases h) fun h => ?_
      have htext : text ∈ dir ++ [text] ++ rest := by simp
      exact (hd.isName h.2 htext).short hlong
    rw [if_neg hlong]
    cases hnode : d.node? (dir ++ [text]) with
    | none =>
      -- where nothing is, nothing is below either
      have hnone : d.node? (dir ++ [text] ++ rest) ≠ some node := by
        intro h
        by_cases hnil : rest = []
        · rw [hnil, List.append_nil, hnode] at h
          cases h
        · obtain ⟨writable, hdir'⟩ := hd.isDirectory_of_append hnil h
          rw [hnode] at hdir'
          cases hdir'
      refine iff_of_false (fun h => ?_) fun h => hnone h.2
      rw [enter] at h
      split at h <;> cases h
    | some there =>
      cases there with
      | directory writable => exact ih ⟨writable, hnode⟩ hrest.2
      | link target => exact absurd rfl (hd.ne_link hnode target)
      | file content writable =>
        rw [enter]
        cases rest with
        | nil =>
          rw [List.map_nil, List.isEmpty_nil, if_pos rfl, List.append_nil, hnode]
          simp only [Except.ok.injEq, Place.taken.injEq, Option.some.injEq]
          rw [eq_comm (a := dir ++ [text])]
        | cons text' rest =>
          refine iff_of_false (fun h => by cases h) fun h => ?_
          obtain ⟨writable', hdir'⟩ := hd.isDirectory_of_append (List.cons_ne_nil text' rest) h.2
          rw [hnode] at hdir'
          cases hdir'

/-- **What the path of a name leads to**: what stands under the name, if the path is not too long. -/
theorem find_eq_ok_iff (hn : Name.Plain n) : d.find n.path = .ok (m, node) ↔
    m = n ∧ d.node? n = some node ∧ n.path.spelling.utf8ByteSize < maxSpelling := by
  have hwalk : d.walk true maxLinks (d.walkStart n.path)
      (Path.segments n.path.spelling.toList) = .ok (.taken m node) ↔
        m = n ∧ d.node? n = some node := by
    obtain ⟨blanks, hblanks, hsegments⟩ := segments_path hn
    rw [walkStart, if_pos (isAbsolute_path n), hsegments, walk_blanks hblanks,
      hd.walk_eq_ok_iff d.isDirectory_nil hn]
    rfl
  rw [find_eq_ok]
  constructor
  · intro h
    have hwalkable := walkable_of_place h
    rw [place_eq_walk hwalkable, hwalk] at h
    exact ⟨h.1, h.2, hwalkable.2.2⟩
  · rintro ⟨hm, hnode, hshort⟩
    have hwalkable : Walkable n.path := by
      refine ⟨?_, Path.spelling_ne (isAbsolute_path n), hshort⟩
      rw [List.contains_eq_mem, decide_eq_false_iff_not]
      intro hmem
      rw [toList_path] at hmem
      rcases List.mem_cons.1 hmem with hroot | hmem
      · cases hroot
      rcases mem_intercalate hmem with hslash | ⟨text, htext, hnul⟩
      · cases hslash
      · exact (hd.isName hnode htext).no_nul hnul
    rw [place_eq_walk hwalkable, hwalk]
    exact ⟨hm, hnode⟩

end FileTree

end PhpRename.Disk
