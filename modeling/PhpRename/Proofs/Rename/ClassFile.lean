import PhpRename.Proofs.Path.Relation
import PhpRename.Rename.ClassFile

/-!
# Where the file of a class moves

A class is filed under the parts that underscores divide its name into: `Foo_Bar` is `Foo/Bar.php`
below some base directory. Renamed, it stays below that directory, but for a new name with an
underscore in front: what it is filed under is then read as an absolute path.

* `filedUnder`: the names that a class is filed under.
* `steps_classFile`: they are the steps of the path that is made of the name.
* `class_file_keeps_base`: where the file moves.
-/

namespace PhpRename.Rename

open PhpRename.Path

variable {file base target : Path} {old new cls name ext : String} {cs tail : List Char}

/-! ## Names of classes as paths -/

/-- The text has no dot and no slash, as the names of classes do not. -/
structure IsClassName (name : String) : Prop where
  noSlash : '/' ∉ name.toList
  noDot : '.' ∉ name.toList

/-- What a class is filed under: the parts of its name between underscores, the last one with the
extension. Parts that are empty do not count. -/
def filedUnder (cls ext : String) : List Part :=
  let pieces := cls.toList.splitOn '_'
  (pieces.dropLast.filter (· ≠ [])).map (fun s => .name (String.ofList s)) ++
    steps (pieces.getLastD [] ++ '.' :: ext.toList)

/-- The relative path that a class is filed under. -/
def classFile (cls ext : String) : Path :=
  ⟨classPath cls ++ "." ++ ext⟩

/-- A text without dots and slashes is one name, or none. -/
theorem steps_of_noDot (hslash : '/' ∉ cs) (hdot : '.' ∉ cs) :
    steps cs = ([cs].filter (· ≠ [])).map fun s => .name (String.ofList s) := by
  have hne : cs ≠ ['.'] ∧ cs ≠ ['.', '.'] :=
    ⟨fun h => hdot (h ▸ List.mem_cons_self), fun h => hdot (h ▸ List.mem_cons_self)⟩
  rw [steps, segments_of_not_mem hslash]
  by_cases hnil : cs = []
  · rw [hnil]
    rfl
  · rw [List.filterMap_cons_some (b := .name (String.ofList cs))]
    · simp [hnil]
    · rw [Part.ofSegment?, if_neg (by simp [hnil, hne.1]), if_neg hne.2]

/-- A text without underscores stays as it is. -/
theorem map_underscore_of_not_mem (h : '_' ∉ cs) :
    cs.map (fun c => if c = '_' then '/' else c) = cs := by
  rw [List.map_congr_left (g := id), List.map_id]
  intro c hc
  have hne : c ≠ '_' := fun he => h (he ▸ hc)
  exact if_neg hne

/-- The steps of a text that has slashes put for its underscores. -/
theorem steps_map_underscore (hslash : '/' ∉ cs) (hdot : '.' ∉ cs) (tail : List Char) :
    steps (cs.map (fun c => if c = '_' then '/' else c) ++ tail) =
      ((cs.splitOn '_').dropLast.filter (· ≠ [])).map (fun s => .name (String.ofList s)) ++
        steps ((cs.splitOn '_').getLastD [] ++ tail) := by
  induction hn : cs.length using Nat.strongRecOn generalizing cs with
  | ind n ih =>
    by_cases hmem : '_' ∈ cs
    · -- the first piece is a step of its own
      obtain ⟨as, bs, rfl, has⟩ := List.eq_append_cons_of_mem hmem
      obtain ⟨s, ss, hss⟩ := List.exists_cons_of_ne_nil (List.splitOn_ne_nil '_' bs)
      rw [List.mem_append, List.mem_cons, not_or, not_or] at hslash hdot
      have hbs := ih bs.length (by simp [← hn]; omega) hslash.2.2 hdot.2.2 rfl
      have hsplit : (as ++ '_' :: bs).splitOn '_' = as :: bs.splitOn '_' := by
        rw [List.splitOn_append_cons_of_beq _ _ (beq_self_eq_true '_'),
          List.splitOn_eq_singleton has, List.singleton_append]
      have hlast : (as :: bs.splitOn '_').getLastD [] = (bs.splitOn '_').getLastD [] := by
        rw [hss, List.getLastD_cons, List.getLastD_cons, List.getLastD_cons]
      have hinit : (as :: bs.splitOn '_').dropLast = [as] ++ (bs.splitOn '_').dropLast := by
        rw [hss]
        rfl
      have hslashed : (as ++ '_' :: bs).map (fun c => if c = '_' then '/' else c) ++ tail =
          as ++ '/' :: (bs.map (fun c => if c = '_' then '/' else c) ++ tail) := by
        rw [List.map_append, map_underscore_of_not_mem has, List.map_cons, if_pos rfl,
          List.append_assoc, List.cons_append]
      rw [hslashed, steps_append_slash, steps_of_noDot hslash.1 hdot.1, hbs, hsplit, hlast, hinit,
        List.filter_append, List.map_append, List.append_assoc]
    · rw [map_underscore_of_not_mem hmem, List.splitOn_eq_singleton hmem]
      rfl

/-- **The path that is made of a class's name** takes the steps that the class is filed under. -/
theorem steps_classFile (h : IsClassName cls) (ext : String) :
    steps (classFile cls ext).spelling.toList = filedUnder cls ext := by
  have hspelling : (classFile cls ext).spelling.toList =
      cls.toList.map (fun c => if c = '_' then '/' else c) ++ '.' :: ext.toList := by
    rw [classFile, classPath, String.toList_append, String.toList_append, String.toList_map,
      List.append_assoc]
    rfl
  rw [hspelling, steps_map_underscore h.noSlash h.noDot, filedUnder]

/-- It is absolute if the name begins with an underscore. -/
theorem isAbsolute_classFile (h : IsClassName cls) (hne : cls ≠ "") (ext : String) :
    (classFile cls ext).isAbsolute = true ↔ cls.toList.head? = some '_' := by
  obtain ⟨c, cs, hcs⟩ := List.exists_cons_of_ne_nil (mt String.toList_eq_nil_iff.1 hne)
  have hc : c ≠ '/' := fun he => h.noSlash (hcs ▸ he ▸ List.mem_cons_self)
  rw [isAbsolute, decide_eq_true_eq, classFile, classPath, String.toList_append,
    String.toList_append, String.toList_map, hcs]
  by_cases hunder : c = '_' <;> simp [hunder, hc]

/-- The names that are left of some parts when each step up has taken back one. -/
def namesLeft (ps : List Part) : List Part :=
  (normalParts ps).filter Part.isName

theorem namesLeft_of_areNames {ps : List Part} (h : AreNames ps) : namesLeft ps = ps := by
  rw [namesLeft, normalParts_names h, List.filter_eq_self]
  exact h

/-- The text can stand behind the dot of any file name. -/
structure IsExtension (ext : String) : Prop where
  noSlash : '/' ∉ ext.toList
  nonempty : ext ≠ ""
  noDot : ext ≠ "."

theorem subset_of_mem_splitOn {s : List Char} (h : s ∈ cs.splitOn '_') : s ⊆ cs := by
  induction cs generalizing s with
  | nil =>
    obtain rfl : s = [] := by simpa using h
    exact List.Subset.refl _
  | cons c cs ih =>
    rw [List.splitOn_cons_eq_if_modifyHead] at h
    split at h
    · rcases List.mem_cons.1 h with rfl | h
      · exact List.nil_subset _
      · exact List.subset_cons_of_subset c (ih h)
    · obtain ⟨t, ts, hts⟩ := List.exists_cons_of_ne_nil (List.splitOn_ne_nil '_' cs)
      rw [hts, List.modifyHead_cons] at h
      rw [hts] at ih
      rcases List.mem_cons.1 h with rfl | h
      · exact List.cons_subset_cons c (ih List.mem_cons_self)
      · exact List.subset_cons_of_subset c (ih (List.mem_cons_of_mem _ h))

/-- A name, a dot and an extension are a plain part. One of the two may be missing. -/
theorem plain_dotted {text : String} (htext : text.toList = cs ++ '.' :: tail) (hslash : '/' ∉ cs)
    (hdot : '.' ∉ cs) (htail : '/' ∉ tail) (h : cs = [] → tail ≠ [] ∧ tail ≠ ['.']) :
    (Part.name text).Plain := by
  rw [Part.Plain, htext]
  cases cs with
  | nil => simpa [htail] using h rfl
  | cons c cs =>
    rw [List.mem_cons, not_or] at hslash hdot
    have hc : c ≠ '.' := Ne.symm hdot.1
    simp [hslash.1, hslash.2, htail, hc]

/-- A class is filed under names. -/
theorem areNames_filedUnder (h : IsClassName cls) (hext : IsExtension ext) :
    AreNames (filedUnder cls ext) := by
  have hsub : (cls.toList.splitOn '_').getLastD [] ⊆ cls.toList := by
    rw [List.getLastD_eq_getLast?]
    cases hlast : (cls.toList.splitOn '_').getLast? with
    | none => exact List.nil_subset _
    | some s => exact subset_of_mem_splitOn (List.mem_of_getLast? hlast)
  have hslash : '/' ∉ (cls.toList.splitOn '_').getLastD [] := fun hmem => h.noSlash (hsub hmem)
  have hdot : '.' ∉ (cls.toList.splitOn '_').getLastD [] := fun hmem => h.noDot (hsub hmem)
  refine AreNames.append (fun part hpart => ?_) fun part hpart => ?_
  · obtain ⟨s, -, rfl⟩ := List.mem_map.1 hpart
    rfl
  · generalize (cls.toList.splitOn '_').getLastD [] = last at hpart hslash hdot
    have hplain : (Part.name (String.ofList (last ++ '.' :: ext.toList))).Plain :=
      plain_dotted String.toList_ofList hslash hdot hext.noSlash fun _ =>
        ⟨mt String.toList_eq_nil_iff.1 hext.nonempty,
          fun he => hext.noDot (String.toList_injective he)⟩
    have hsteps := steps_of_plain hplain
    rw [Part.text, String.toList_ofList] at hsteps
    rw [hsteps, List.mem_singleton] at hpart
    rw [hpart]
    rfl

/-! ## Where the file moves -/

/-- A file moves by one of the extensions. -/
theorem exists_extension {extensions : List String}
    (h : classFileTarget? file old new extensions = some target) :
    ∃ name, file.fileName? = some name ∧ ∃ ext ∈ extensions,
      classFileWith? file name old new ext = some (some target) := by
  rw [classFileTarget?] at h
  cases hname : file.fileName? with
  | none => rw [hname] at h; cases h
  | some name =>
    rw [hname] at h
    exact ⟨name, rfl, List.exists_of_findSome?_eq_some (Option.join_eq_some_iff.1 h)⟩

/-- A file that is named after the class stays in its directory. -/
theorem parts_join_named {dir : Path} (hnew : IsClassName new) (hne : new ≠ "")
    (hname : file.fileName? = some (old ++ "." ++ ext))
    (hdir : file.parent? = some dir) :
    (dir.join ⟨new ++ "." ++ ext⟩).parts = dir.parts ++ [.name (new ++ "." ++ ext)] := by
  obtain ⟨dir', hdir', hparts⟩ := exists_parent? hname
  obtain rfl : dir = dir' := Option.some.inj (hdir.symm.trans hdir')
  have hplain : (Part.name (old ++ "." ++ ext)).Plain := by
    refine plain_of_mem_parts (p := file) ?_
    rw [hparts]
    exact List.mem_concat_self
  have htext : ∀ cls : String, (cls ++ "." ++ ext).toList = cls.toList ++ '.' :: ext.toList := by
    simp
  have hext : '/' ∉ ext.toList := fun hmem => hplain.1 (by simp [htext, hmem])
  have hplain' : (Part.name (new ++ "." ++ ext)).Plain :=
    plain_dotted (htext new) hnew.noSlash hnew.noDot hext fun hnil =>
      absurd (String.toList_eq_nil_iff.1 hnil) hne
  have hjoin := parts_join dir hplain'
  rw [Part.text] at hjoin
  exact hjoin

/-- **A class file stays under its base directory.** A file that moves with its class is named after
it, and stays where it is under the new name; or it is filed under the class's name below some base
directory, and moves to what the new name is filed under below that. Only where the new name begins
with an underscore it moves to the root instead. -/
theorem class_file_keeps_base {extensions : List String} (hfile : file.Canonical)
    (hold : IsClassName old) (hnew : IsClassName new) (hne : new ≠ "")
    (h : classFileTarget? file old new extensions = some target) :
    ∃ ext ∈ extensions,
      (file.fileName? = some (old ++ "." ++ ext) ∧ ∃ dir, file.parent? = some dir ∧
        target.parts = dir.parts ++ [.name (new ++ "." ++ ext)]) ∨
      ∃ base : Path, base.Canonical ∧
        file.parts = base.parts ++ namesLeft (filedUnder old ext) ∧
        (IsExtension ext → namesLeft (filedUnder old ext) = filedUnder old ext) ∧
        target.parts = (if new.toList.head? = some '_' then [.root] else base.parts) ++
          filedUnder new ext := by
  obtain ⟨name, hname, ext, hext, hmoves⟩ := exists_extension h
  refine ⟨ext, hext, ?_⟩
  rw [classFileWith?] at hmoves
  split at hmoves
  · rename_i hnamed
    obtain ⟨dir, hdir, rfl⟩ := Option.map_eq_some_iff.1 (Option.some.inj hmoves)
    exact .inl ⟨hnamed ▸ hname, dir, hdir, parts_join_named hnew hne (hnamed ▸ hname) hdir⟩
  · obtain ⟨base, hbase, hjoin⟩ := Option.map_eq_some_iff.1 hmoves
    obtain rfl := Option.some.inj hjoin
    obtain ⟨hcanonical, hparts⟩ := baseOfTail?_eq_some hfile hbase
    refine .inr ⟨base, hcanonical, ?_, fun hext => ?_, ?_⟩
    · rw [hparts, filter_normalParts]
      exact congrArg (fun ps => base.parts ++ namesLeft ps) (steps_classFile hold ext)
    · exact namesLeft_of_areNames (areNames_filedUnder hold hext)
    · show (base.join (classFile new ext)).parts = _
      split
      · rename_i hunder
        have habs := (isAbsolute_classFile hnew hne ext).2 hunder
        rw [join, if_pos habs, parts_of_isAbsolute habs, steps_classFile hnew]
        rfl
      · rename_i hunder
        have hrel := Bool.eq_false_iff.2 (mt (isAbsolute_classFile hnew hne ext).1 hunder)
        rw [parts_join_of_relative (spelling_ne hcanonical.absolute) hrel, steps_classFile hnew]

/-- Where a file moves is told by the spelling. -/
theorem classFileTarget?_of_spelling {extensions : List String} {spelling : String}
    (h : (classFileTarget? file old new extensions).map Path.spelling = some spelling) :
    classFileTarget? file old new extensions = some ⟨spelling⟩ := by
  obtain ⟨p, hp, rfl⟩ := Option.map_eq_some_iff.1 h
  exact hp

/-- From `Foo/Bar.php` to `Lib/Util/Thing.php`, below the same directory. -/
theorem class_file_keeps_base_deeper :
    let file : Path := ⟨"/p/src/Foo/Bar.php"⟩
    let target : Path := ⟨"/p/src/Lib/Util/Thing.php"⟩
    (file.Canonical ∧ IsClassName "Foo_Bar" ∧ IsClassName "Lib_Util_Thing" ∧
      "Lib_Util_Thing" ≠ "" ∧
      classFileTarget? file "Foo_Bar" "Lib_Util_Thing" ["inc", "php"] = some target) ∧
    ∃ ext ∈ ["inc", "php"], ∃ base : Path, base.Canonical ∧
      file.parts = base.parts ++ filedUnder "Foo_Bar" ext ∧
      target.parts = base.parts ++ filedUnder "Lib_Util_Thing" ext := by
  intro file target
  have hfile : file.Canonical := ⟨by decide +kernel, by decide +kernel⟩
  have hold : IsClassName "Foo_Bar" := ⟨by decide +kernel, by decide +kernel⟩
  have hnew : IsClassName "Lib_Util_Thing" := ⟨by decide +kernel, by decide +kernel⟩
  have hne : "Lib_Util_Thing" ≠ "" := by decide
  have htarget : classFileTarget? file "Foo_Bar" "Lib_Util_Thing" ["inc", "php"] = some target :=
    classFileTarget?_of_spelling (by decide +kernel)
  refine ⟨⟨hfile, hold, hnew, hne, htarget⟩, ?_⟩
  obtain ⟨ext, hext, hcase⟩ := class_file_keeps_base hfile hold hnew hne htarget
  have hunnamed : ∀ ext ∈ ["inc", "php"], file.fileName? ≠ some ("Foo_Bar" ++ "." ++ ext) := by
    decide +kernel
  rcases hcase with ⟨hname, -⟩ | ⟨base, hbase, hparts, hleft, htargetParts⟩
  · exact absurd hname (hunnamed ext hext)
  · have hcases : ext = "inc" ∨ ext = "php" := by simpa using hext
    have hextension : IsExtension ext := by
      rcases hcases with rfl | rfl <;> exact ⟨by decide +kernel, by decide, by decide⟩
    rw [hleft hextension] at hparts
    exact ⟨ext, hext, base, hbase, hparts, htargetParts⟩

/-- **A file leaves its base directory** where the new name of its class begins with an underscore. -/
theorem class_file_leaves_base :
    let file : Path := ⟨"/p/src/Foo/Bar.php"⟩
    let target : Path := ⟨"/Baz.php"⟩
    file.Canonical ∧ IsClassName "Foo_Bar" ∧ IsClassName "_Baz" ∧
    classFileTarget? file "Foo_Bar" "_Baz" ["php"] = some target ∧
    ¬ ∃ ext ∈ ["php"],
      (file.fileName? = some ("Foo_Bar" ++ "." ++ ext) ∧ ∃ dir, file.parent? = some dir ∧
        target.parts = dir.parts ++ [.name ("_Baz" ++ "." ++ ext)]) ∨
      ∃ base : Path, file.parts = base.parts ++ filedUnder "Foo_Bar" ext ∧
        target.parts = base.parts ++ filedUnder "_Baz" ext := by
  intro file target
  refine ⟨⟨by decide +kernel, by decide +kernel⟩, ⟨by decide +kernel, by decide +kernel⟩,
    ⟨by decide +kernel, by decide +kernel⟩,
    classFileTarget?_of_spelling (by decide +kernel), ?_⟩
  rintro ⟨ext, hext, hcase⟩
  obtain rfl := List.mem_singleton.1 hext
  rcases hcase with ⟨hname, -⟩ | ⟨base, hfile, htarget⟩
  · have hunnamed : file.fileName? ≠ some ("Foo_Bar" ++ "." ++ "php") := by decide +kernel
    exact hunnamed hname
  · have hunder : filedUnder "Foo_Bar" "php" = [.name "Foo", .name "Bar.php"] := by decide +kernel
    have hunder' : filedUnder "_Baz" "php" = [.name "Baz.php"] := by decide +kernel
    have hparts : file.parts =
        [.root, .name "p", .name "src"] ++ [.name "Foo", .name "Bar.php"] := by decide +kernel
    have hparts' : target.parts = [.root] ++ [.name "Baz.php"] := by decide +kernel
    rw [hunder, hparts] at hfile
    rw [hunder', hparts'] at htarget
    rw [← List.append_cancel_right hfile] at htarget
    exact absurd htarget (by decide)

end PhpRename.Rename
