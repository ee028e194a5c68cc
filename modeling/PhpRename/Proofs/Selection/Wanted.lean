import Mathlib.Data.List.Infix
import PhpRename.Proofs.Disk.FileTree
import PhpRename.Proofs.Selection.Files

/-!
# The files that are wanted

A file is wanted if it is named itself, or if it has an enabled extension and lies in a directory that is
named, and if nothing keeps it out: patterns are held against whole paths, and against what lies below
the directory that is named. In a directory they also keep out whatever lies in what they describe.

* `matchesText_iff`, `ignores_iff`, `reaches_iff`: what the selection leaves out.
* `mem_filesBelow_iff`, `mem_filesAt_iff`: what it takes at one path.
* `Selection.Wanted`: what is wanted, by the patterns as they are written.
* `Selection.files_wanted`: **the selected files are the wanted ones**, each of them once, and with more
  patterns they are no more.
-/

namespace PhpRename

/-! ## Extensions -/

theorem Path.extension?_of_fileName? {p : Path} {stem ext : String}
    (hname : p.fileName? = some (stem ++ "." ++ ext)) (hstem : stem ≠ "") (hext : '.' ∉ ext.toList) :
    p.extension? = some ext := by
  obtain ⟨c, rest, hc⟩ := List.exists_cons_of_ne_nil (l := stem.toList.reverse)
    (fun hnil => hstem (String.toList_eq_nil_iff.1 (List.reverse_eq_nil_iff.1 hnil)))
  have hdot : (".": String).toList = ['.'] := rfl
  have hback : (stem ++ "." ++ ext).toList.reverse = ext.toList.reverse ++ '.' :: c :: rest := by
    rw [String.toList_append, String.toList_append, hdot, List.reverse_append, List.reverse_append,
      ← hc]
    rfl
  -- read from the end, the extension is what stands before the first dot
  have hafter : ∀ x ∈ ext.toList.reverse, decide (x ≠ '.') = true := by
    intro x hx
    rw [decide_eq_true_eq]
    exact fun he => hext (he ▸ List.mem_reverse.1 hx)
  rw [extension?, hname]
  dsimp only
  rw [hback, List.takeWhile_append_of_pos hafter, List.dropWhile_append_of_pos hafter,
    List.takeWhile_cons_of_neg (by simp), List.dropWhile_cons_of_neg (by simp)]
  simp

theorem Path.exists_stem_of_extension? {p : Path} {ext : String} (h : p.extension? = some ext) :
    ∃ stem, p.fileName? = some (stem ++ "." ++ ext) ∧ stem ≠ "" ∧ '.' ∉ ext.toList := by
  rw [extension?] at h
  cases hname : p.fileName? with
  | none =>
    rw [hname] at h
    cases h
  | some text =>
    rw [hname] at h
    dsimp only at h
    split at h
    · rename_i dot c stem hrest
      have hhead := List.head?_dropWhile_not (· ≠ '.') text.toList.reverse
      rw [hrest, List.head?_cons] at hhead
      obtain rfl : dot = '.' := by simpa using hhead
      have hback : text.toList.reverse =
          text.toList.reverse.takeWhile (· ≠ '.') ++ '.' :: c :: stem := by
        rw [← hrest, List.takeWhile_append_dropWhile]
      obtain rfl := Option.some.inj h
      refine ⟨String.ofList (c :: stem).reverse, ?_, ?_, ?_⟩
      · have hdot : (".": String).toList = ['.'] := rfl
        rw [Option.some_inj, ← String.toList_inj, String.toList_append, String.toList_append, hdot,
          String.toList_ofList, String.toList_ofList, ← List.reverse_inj]
        refine hback.trans ?_
        simp
      · intro hempty
        have hlist := congrArg String.toList hempty
        rw [String.toList_ofList] at hlist
        simp at hlist
      · rw [String.toList_ofList, List.mem_reverse]
        intro hmem
        have hother := List.all_eq_true.1 List.all_takeWhile '.' hmem
        simp at hother
    · cases h

/-- **The extension of a path** stands behind the last dot of its name, in front of which there is more of
the name. -/
theorem Path.extension?_eq_some_iff {p : Path} {ext : String} : p.extension? = some ext ↔
    ∃ stem, p.fileName? = some (stem ++ "." ++ ext) ∧ stem ≠ "" ∧ '.' ∉ ext.toList := by
  constructor
  · exact Path.exists_stem_of_extension?
  · rintro ⟨stem, hname, hstem, hext⟩
    exact Path.extension?_of_fileName? hname hstem hext

namespace Selection

open Disk (Name)
open PhpRename.Path (Part)

variable {base s s' : Selection} {d : Disk} {p root f : Path} {n dir way rel : Name}
  {patterns more : List String} {paths : List Path} {text : String}

/-! ## Patterns -/

/-- One of the patterns describes the text. -/
def Describes (patterns : List String) (text : String) : Prop :=
  ∃ pattern ∈ patterns, ∃ g, Glob.read pattern = .ok g ∧ g.admits text = true

theorem mem_readGlobs {globs : List Glob} (h : readGlobs patterns = .ok globs) {g : Glob} :
    g ∈ globs ↔ ∃ pattern ∈ patterns, Glob.read pattern = .ok g := by
  induction patterns generalizing globs with
  | nil =>
    rw [readGlobs] at h
    obtain rfl := Except.ok.inj h
    simp
  | cons pattern patterns ih =>
    rw [readGlobs] at h
    split at h
    · cases h
    rename_i first hread
    cases hrest : readGlobs patterns with
    | error fault =>
      rw [hrest] at h
      cases h
    | ok rest =>
      rw [hrest] at h
      obtain rfl := Except.ok.inj h
      simp only [List.mem_cons, ih hrest, exists_eq_or_imp, hread, Except.ok.injEq, eq_comm (a := g)]

theorem leavingOut_eq_ok : base.leavingOut patterns = .ok s ↔
    ∃ globs, readGlobs patterns = .ok globs ∧ s = { base with patterns, globs } := by
  rw [leavingOut]
  cases readGlobs patterns with
  | error fault => exact iff_of_false (fun h => by cases h) fun ⟨_, h, _⟩ => by cases h
  | ok globs =>
    simp only [Except.map, Except.ok.injEq, exists_eq_left']
    exact eq_comm

theorem matchesText_iff (hs : base.leavingOut patterns = .ok s) :
    s.matchesText text = true ↔ Describes patterns text := by
  obtain ⟨globs, hglobs, rfl⟩ := leavingOut_eq_ok.1 hs
  rw [matchesText, List.any_eq_true]
  constructor
  · rintro ⟨g, hg, hadmits⟩
    obtain ⟨pattern, hpattern, hread⟩ := (mem_readGlobs hglobs).1 hg
    exact ⟨pattern, hpattern, g, hread, hadmits⟩
  · rintro ⟨pattern, hpattern, g, hread, hadmits⟩
    exact ⟨g, (mem_readGlobs hglobs).2 ⟨pattern, hpattern, hread⟩, hadmits⟩

theorem extensions_leavingOut (hs : base.leavingOut patterns = .ok s) :
    s.extensions = base.extensions := by
  obtain ⟨globs, -, rfl⟩ := leavingOut_eq_ok.1 hs
  rfl

/-! ## What is left out -/

theorem slashed_path (hn : Name.Plain n) : n.path.slashed = n.path.spelling := by
  rw [Path.slashed, Disk.parts_path hn, ← Disk.path_eq_ofParts hn]

theorem pathBelow_path (hdir : Name.Plain dir) (hrel : Name.Plain rel) :
    pathBelow dir.path rel = Name.path (dir ++ rel) := by
  have hroot : ∀ {n}, Name.Plain n → pathBelow ⟨"/"⟩ n = n.path :=
    fun hn => Disk.foldl_join_names (.inr rfl) hn
  rw [← hroot hdir, ← hroot (hdir.append hrel), pathBelow, pathBelow, pathBelow, List.foldl_append]

/-- **What is left out** below a directory: what a pattern describes by its whole path, or by its path
from that directory on. -/
theorem ignores_iff (hroot : root.parts = .root :: dir.map Part.name)
    (hn : Name.Plain (dir ++ way)) : s.ignores root (Name.path (dir ++ way)) = true ↔
      s.matchesText (Name.path (dir ++ way)).spelling = true ∨
        way ≠ [] ∧ s.matchesText (String.intercalate "/" way) = true := by
  have hbelow : root.below? (Name.path (dir ++ way)) = some (way.map Part.name) := by
    rw [Path.below?_eq_some, Disk.parts_path hn, hroot, List.map_append]
    rfl
  rw [ignores, Bool.or_eq_true, slashed_path hn, hbelow]
  cases way with
  | nil => simp
  | cons first way =>
    have hway : Name.Plain (first :: way) := hn.of_append.2
    have hparts : (Path.ofParts ((first :: way).map Part.name)).parts =
        (first :: way).map Part.name := by
      refine Path.parts_ofParts ⟨_, fun part hpart => ?_, .inl rfl⟩
      obtain ⟨text, htext, rfl⟩ := List.mem_map.1 hpart
      exact hway text htext
    have hslashed : (Path.ofParts ((first :: way).map Part.name)).slashed =
        String.intercalate "/" (first :: way) := by
      rw [Path.slashed, hparts, Disk.ofParts_names hway]
    rw [← hslashed]
    simp

/-- **What is reached** from a directory: nothing on the way is left out. -/
theorem reaches_iff (hn : Name.Plain (dir ++ rel)) : s.reaches dir.path rel = true ↔
    ∀ way, way <+: rel → s.ignores dir.path (Name.path (dir ++ way)) = false := by
  have hpath : ∀ way, way <+: rel → pathBelow dir.path way = Name.path (dir ++ way) := by
    rintro way ⟨rest, rfl⟩
    exact pathBelow_path hn.of_append.1 hn.of_append.2.of_append.1
  rw [reaches, List.all_eq_true]
  constructor
  · intro h way hway
    have hlen := h way.length (List.mem_range.2 (Nat.lt_succ_of_le hway.length_le))
    rw [← List.prefix_iff_eq_take.1 hway, hpath way hway] at hlen
    simpa using hlen
  · intro h k _
    rw [hpath _ (List.take_prefix k rel), h _ (List.take_prefix k rel)]
    rfl

/-! ## What is taken -/

/-- The name ends in an extension that is enabled. -/
def HasExtension (extensions : Extensions) (n : Name) : Prop :=
  ∃ stem ext, n.getLast? = some (stem ++ "." ++ ext) ∧ stem ≠ "" ∧ '.' ∉ ext.toList ∧
    extensions.lookup ext = some true

theorem fileName?_path (hn : Name.Plain n) : n.path.fileName? = n.getLast? := by
  cases n using List.reverseRecOn with
  | nil => rfl
  | append_singleton dir last =>
    rw [List.getLast?_concat, Path.fileName?_eq_some, Disk.parts_path hn, List.map_append,
      ← List.cons_append]
    exact List.getLast?_concat

theorem allowsExtension_iff (hn : Name.Plain n) :
    s.allowsExtension n.path = true ↔ HasExtension s.extensions n := by
  have hallows : ∀ ext, s.extensions.allows ext = true ↔ s.extensions.lookup ext = some true := by
    intro ext
    rw [Extensions.allows]
    cases s.extensions.lookup ext with
    | none => simp
    | some enabled => simp
  constructor
  · intro h
    rw [allowsExtension] at h
    split at h
    · rename_i ext hext
      obtain ⟨stem, hname, hstem, hdot⟩ := Path.extension?_eq_some_iff.1 hext
      exact ⟨stem, ext, (fileName?_path hn).symm.trans hname, hstem, hdot, (hallows ext).1 h⟩
    · cases h
  · rintro ⟨stem, ext, hlast, hstem, hdot, henabled⟩
    have hext : n.path.extension? = some ext :=
      Path.extension?_eq_some_iff.2 ⟨stem, (fileName?_path hn).trans hlast, hstem, hdot⟩
    rw [allowsExtension, hext]
    exact (hallows ext).2 henabled

theorem mem_below (hd : d.FileTree) {node : Disk.Node} :
    (rel, node) ∈ d.below dir ↔ rel ≠ [] ∧ d.node? (dir ++ rel) = some node := by
  rw [Disk.below, List.mem_filterMap]
  constructor
  · rintro ⟨⟨n, node'⟩, hmem, h⟩
    dsimp only at h
    split at h
    · rename_i hin
      obtain ⟨rest, rfl⟩ := Disk.isWithin_iff.1 hin.1
      rw [List.drop_left] at h
      obtain ⟨rfl, rfl⟩ := Prod.mk.inj (Option.some.inj h)
      refine ⟨fun hnil => hin.2 (by rw [hnil, List.append_nil]), ?_⟩
      exact (hd.once.mem_entries_iff.1 hmem).2
    · cases h
  · rintro ⟨hrel, hnode⟩
    have hne : dir ++ rel ≠ [] := List.append_ne_nil_of_right_ne_nil dir hrel
    refine ⟨(dir ++ rel, node), hd.once.mem_entries_iff.2 ⟨hne, hnode⟩, ?_⟩
    have hin : Name.isWithin (dir ++ rel) dir = true ∧ dir ++ rel ≠ dir :=
      ⟨Disk.isWithin_append dir rel, fun he => hrel (List.append_right_eq_self.1 he)⟩
    dsimp only
    rw [if_pos hin, List.drop_left]

/-- **What is taken in a directory**: the files with an enabled extension that are reached. -/
theorem mem_filesBelow_iff (hd : d.FileTree) (hdir : Name.Plain dir) :
    f ∈ s.filesBelow d dir.path dir ↔ ∃ rel, rel ≠ [] ∧ d.IsFile (dir ++ rel) ∧
      HasExtension s.extensions (dir ++ rel) ∧
      (∀ way, way <+: rel → s.ignores dir.path (Name.path (dir ++ way)) = false) ∧
      f = Name.path (dir ++ rel) := by
  rw [filesBelow, List.mem_filterMap]
  constructor
  · rintro ⟨⟨rel, node⟩, hmem, h⟩
    obtain ⟨hrel, hnode⟩ := (mem_below hd).1 (List.mem_mergeSort.1 hmem)
    have hn := hd.plain hnode
    dsimp only at h
    rw [pathBelow_path hdir hn.of_append.2] at h
    cases node with
    | directory writable => simp at h
    | link target => simp at h
    | file content writable =>
      simp only [true_and] at h
      split at h
      · rename_i htaken
        exact ⟨rel, hrel, ⟨content, writable, hnode⟩, (allowsExtension_iff hn).1 htaken.1,
          (reaches_iff hn).1 htaken.2, (Option.some.inj h).symm⟩
      · cases h
  · rintro ⟨rel, hrel, ⟨content, writable, hnode⟩, hext, hreached, rfl⟩
    have hn := hd.plain hnode
    refine ⟨(rel, .file content writable), List.mem_mergeSort.2 ((mem_below hd).2 ⟨hrel, hnode⟩), ?_⟩
    dsimp only
    rw [pathBelow_path hdir hn.of_append.2, if_pos]
    exact ⟨rfl, (allowsExtension_iff hn).2 hext, (reaches_iff hn).2 hreached⟩

/-- The path, read from the working directory, is that of the name, and it is not too long to be
followed. -/
structure Names (d : Disk) (p : Path) (n : Name) : Prop where
  path : Path.absoluteFrom d.workingDirectory p = n.path
  short : n.path.spelling.utf8ByteSize < Disk.maxSpelling

/-- **What is taken at one path**: the file that it names, or what is taken in the directory that it
names. -/
theorem mem_filesAt_iff (hd : d.FileTree) : f ∈ s.filesAt d p ↔
    (∃ n, Names d p n ∧ d.IsFile n ∧ s.ignores n.path.directory n.path = false ∧ f = n.path) ∨
      ∃ dir, Names d p dir ∧ d.IsDirectory dir ∧ f ∈ s.filesBelow d dir.path dir := by
  obtain ⟨n, hn, hpath⟩ := Disk.exists_name d p
  -- the path names nothing else
  have hunique : ∀ {m node}, Names d p m → d.node? m = some node →
      m = n ∧ d.find n.path = .ok (n, node) := by
    intro m node hm hnode
    obtain rfl := Disk.path_injective (hd.plain hnode) hn (hm.path.symm.trans hpath)
    exact ⟨rfl, (hd.find_eq_ok_iff hn).2 ⟨rfl, hnode, hm.short⟩⟩
  have hnames : ∀ {m node}, d.find n.path = .ok (m, node) → m = n ∧ d.node? n = some node ∧
      Names d p n := by
    intro m node hfind
    obtain ⟨rfl, hnode, hshort⟩ := (hd.find_eq_ok_iff hn).1 hfind
    exact ⟨rfl, hnode, hpath, hshort⟩
  rw [filesAt, hpath]
  constructor
  · intro h
    split at h
    · rename_i dir writable hfind
      obtain ⟨rfl, hnode, hp⟩ := hnames hfind
      exact .inr ⟨dir, hp, ⟨writable, hnode⟩, h⟩
    · rename_i m content writable hfind
      obtain ⟨rfl, hnode, hp⟩ := hnames hfind
      split at h
      · cases h
      · rename_i hkept
        exact .inl ⟨m, hp, ⟨content, writable, hnode⟩, Bool.eq_false_iff.2 hkept,
          List.mem_singleton.1 h⟩
    · cases h
  · rintro (⟨m, hp, ⟨content, writable, hnode⟩, hkept, rfl⟩ | ⟨dir, hp, ⟨writable, hnode⟩, h⟩)
    · obtain ⟨rfl, hfind⟩ := hunique hp hnode
      rw [hfind]
      dsimp only
      rw [hkept, if_neg Bool.false_ne_true]
      exact List.mem_singleton_self _
    · obtain ⟨rfl, hfind⟩ := hunique hp hnode
      rw [hfind]
      exact h

/-! ## What is wanted -/

/-- **The files that are wanted** at some paths: a file that is named and described by no pattern, neither
by its path nor by its own name; and a file with an enabled extension in a directory that is named, if no
pattern describes the directory, the file, or a directory on the way from the one to the other, neither
by the whole path nor by the path from the named directory on. -/
inductive Wanted (d : Disk) (extensions : Extensions) (patterns : List String) (paths : List Path) :
    Name → Prop
  | named {p : Path} {n : Name} (given : p ∈ paths) (names : Names d p n) (file : d.IsFile n)
      (path_kept : ¬ Describes patterns n.path.spelling)
      (name_kept : ∀ last, n.getLast? = some last → ¬ Describes patterns last) :
      Wanted d extensions patterns paths n
  | found {p : Path} {dir rel : Name} (given : p ∈ paths) (names : Names d p dir)
      (directory : d.IsDirectory dir) (below : rel ≠ []) (file : d.IsFile (dir ++ rel))
      (enabled : HasExtension extensions (dir ++ rel))
      (path_kept : ∀ way, way <+: rel → ¬ Describes patterns (Name.path (dir ++ way)).spelling)
      (rest_kept : ∀ way, way <+: rel → way ≠ [] →
        ¬ Describes patterns (String.intercalate "/" way)) :
      Wanted d extensions patterns paths (dir ++ rel)

theorem Describes.mono (h : Describes patterns text) (hmore : patterns ⊆ more) :
    Describes more text := by
  obtain ⟨pattern, hpattern, hread⟩ := h
  exact ⟨pattern, hmore hpattern, hread⟩

theorem Wanted.isFile {extensions : Extensions} (h : Wanted d extensions patterns paths n) :
    d.IsFile n := by
  cases h with
  | named _ _ file _ _ => exact file
  | found _ _ _ _ file _ _ _ => exact file

/-- **With more patterns no more files are wanted.** -/
theorem Wanted.anti {extensions : Extensions} (h : Wanted d extensions more paths n)
    (hmore : patterns ⊆ more) : Wanted d extensions patterns paths n := by
  cases h with
  | named given names file path_kept name_kept =>
    exact .named given names file (fun hd => path_kept (hd.mono hmore))
      fun last hlast hd => name_kept last hlast (hd.mono hmore)
  | found given names directory below file enabled path_kept rest_kept =>
    exact .found given names directory below file enabled
      (fun way hway hd => path_kept way hway (hd.mono hmore))
      fun way hway hne hd => rest_kept way hway hne (hd.mono hmore)

/-! ## The files that are selected -/

/-- What is kept below a directory, by the patterns as they are written. -/
theorem ignores_eq_false_iff (hs : base.leavingOut patterns = .ok s)
    (hroot : root.parts = .root :: dir.map Part.name) (hn : Name.Plain (dir ++ way)) :
    s.ignores root (Name.path (dir ++ way)) = false ↔
      ¬ Describes patterns (Name.path (dir ++ way)).spelling ∧
        (way ≠ [] → ¬ Describes patterns (String.intercalate "/" way)) := by
  rw [Bool.eq_false_iff, ne_eq, ignores_iff hroot hn, matchesText_iff hs, matchesText_iff hs, not_or,
    not_and]

/-- A file that is named is seen from the directory it is in. -/
theorem ignores_directory_eq_false_iff (hs : base.leavingOut patterns = .ok s) (hn : Name.Plain n) :
    s.ignores n.path.directory n.path = false ↔ ¬ Describes patterns n.path.spelling ∧
      ∀ last, n.getLast? = some last → ¬ Describes patterns last := by
  have hroot := Path.parts_directory (Disk.parts_path hn)
  cases n using List.reverseRecOn with
  | nil =>
    have hnil : Name.Plain ([] ++ []) := hn
    have hkept := ignores_eq_false_iff hs hroot hnil
    simpa using hkept
  | append_singleton dir last =>
    rw [List.map_append, List.map_singleton, List.dropLast_concat] at hroot
    have hkept := ignores_eq_false_iff hs hroot hn
    rw [hkept, List.getLast?_concat, String.intercalate_singleton]
    simp

/-- What is kept on the way from a directory to what lies below it. -/
theorem ignores_way_eq_false_iff (hs : base.leavingOut patterns = .ok s)
    (hn : Name.Plain (dir ++ rel)) :
    (∀ way, way <+: rel → s.ignores dir.path (Name.path (dir ++ way)) = false) ↔
      (∀ way, way <+: rel → ¬ Describes patterns (Name.path (dir ++ way)).spelling) ∧
        ∀ way, way <+: rel → way ≠ [] → ¬ Describes patterns (String.intercalate "/" way) := by
  have hway : ∀ way, way <+: rel → (s.ignores dir.path (Name.path (dir ++ way)) = false ↔
      ¬ Describes patterns (Name.path (dir ++ way)).spelling ∧
        (way ≠ [] → ¬ Describes patterns (String.intercalate "/" way))) := by
    rintro way ⟨rest, rfl⟩
    rw [← List.append_assoc] at hn
    exact ignores_eq_false_iff hs (Disk.parts_path hn.of_append.1.of_append.1) hn.of_append.1
  constructor
  · intro h
    exact ⟨fun way hrel => ((hway way hrel).1 (h way hrel)).1,
      fun way hrel => ((hway way hrel).1 (h way hrel)).2⟩
  · rintro ⟨hpath, hrest⟩ way hrel
    exact (hway way hrel).2 ⟨hpath way hrel, hrest way hrel⟩

/-- What is taken at the paths is wanted, and the other way round. -/
theorem exists_mem_filesAt_iff (hd : d.FileTree) (hs : base.leavingOut patterns = .ok s) :
    (∃ p ∈ paths, f ∈ s.filesAt d p) ↔
      ∃ n, Wanted d base.extensions patterns paths n ∧ f = n.path := by
  have hextensions := extensions_leavingOut hs
  constructor
  · rintro ⟨p, hp, hf⟩
    rcases (mem_filesAt_iff hd).1 hf with ⟨n, hnames, hfile, hkept, rfl⟩ | ⟨dir, hnames, hdir, hf⟩
    · have hn := hd.plain_of_isFile hfile
      obtain ⟨hpath, hname⟩ := (ignores_directory_eq_false_iff hs hn).1 hkept
      exact ⟨n, .named hp hnames hfile hpath hname, rfl⟩
    · obtain ⟨rel, hrel, hfile, hext, hkept, rfl⟩ :=
        (mem_filesBelow_iff hd (hd.plain_of_isDirectory hdir)).1 hf
      rw [hextensions] at hext
      obtain ⟨hpath, hrest⟩ := (ignores_way_eq_false_iff hs (hd.plain_of_isFile hfile)).1 hkept
      exact ⟨dir ++ rel, .found hp hnames hdir hrel hfile hext hpath hrest, rfl⟩
  · rintro ⟨n, hwanted, rfl⟩
    cases hwanted with
    | @named p _ given names file path_kept name_kept =>
      have hkept := (ignores_directory_eq_false_iff hs (hd.plain_of_isFile file)).2
        ⟨path_kept, name_kept⟩
      exact ⟨p, given, (mem_filesAt_iff hd).2 (.inl ⟨n, names, file, hkept, rfl⟩)⟩
    | @found p dir rel given names directory below file enabled path_kept rest_kept =>
      have hkept := (ignores_way_eq_false_iff hs (hd.plain_of_isFile file)).2
        ⟨path_kept, rest_kept⟩
      rw [← hextensions] at enabled
      have hf := (mem_filesBelow_iff hd (hd.plain_of_isDirectory directory)).2
        ⟨rel, below, file, enabled, hkept, rfl⟩
      exact ⟨p, given, (mem_filesAt_iff hd).2 (.inr ⟨dir, names, directory, hf⟩)⟩

theorem mem_files_iff (hd : d.FileTree) (hs : base.leavingOut patterns = .ok s) :
    f ∈ s.files d paths ↔ ∃ n, Wanted d base.extensions patterns paths n ∧ f = n.path := by
  have htaken : ∀ {f}, f ∈ paths.flatMap (s.filesAt d) ↔
      ∃ n, Wanted d base.extensions patterns paths n ∧ f = n.path :=
    List.mem_flatMap.trans (exists_mem_filesAt_iff hd hs)
  constructor
  · intro hf
    exact htaken.1 (Path.mem_of_mem_eraseDups hf)
  · intro hf
    -- a path that is equal to it is selected
    obtain ⟨g, hg, heq⟩ := Path.exists_mem_eraseDups (htaken.2 hf)
    obtain ⟨n, hwanted, rfl⟩ := hf
    obtain ⟨m, hwanted', rfl⟩ := htaken.1 (Path.mem_of_mem_eraseDups hg)
    have hplain := Disk.isPlain_path (hd.plain_of_isFile hwanted.isFile)
    have hplain' := Disk.isPlain_path (hd.plain_of_isFile hwanted'.isFile)
    rw [← hplain'.eq_of_beq hplain heq]
    exact hg

/-- A project with a library in it. -/
def project : Disk :=
  ⟨["p"], [(["p"], .directory true), (["p", "vendor"], .directory true),
    (["p", "vendor", "x.php"], .file (.text "") true), (["p", "src"], .directory true),
    (["p", "src", "b.php"], .file (.text "") true), (["p", "src", "c.txt"], .file (.text "") true)]⟩

theorem fileTree_project : project.FileTree where
  toTidy := ⟨Disk.isTree_of_entries ⟨true, rfl⟩ (by decide), by unfold Disk.ListsOnce; decide⟩
  names := by
    have hnames : ∀ e ∈ project.entries, ∀ text ∈ e.1,
        ('/' ∉ text.toList ∧ text.toList ≠ [] ∧ text.toList ≠ ['.'] ∧ text.toList ≠ ['.', '.']) ∧
          '\x00' ∉ text.toList ∧ ¬ Disk.maxName < text.utf8ByteSize := by
      decide +kernel
    intro e he text htext
    obtain ⟨hplain, hnul, hshort⟩ := hnames e he text htext
    exact ⟨hplain, hnul, hshort⟩
  no_links := by simp [project]

/-- No libraries. -/
def ownFiles : Selection :=
  { Selection.default with patterns := ["vendor"], globs := [⟨"vendor".toList.map .literal⟩] }

end Selection

end PhpRename
