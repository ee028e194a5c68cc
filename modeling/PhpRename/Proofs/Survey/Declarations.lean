import PhpRename.Proofs.Php.ClassWord
import PhpRename.Proofs.Php.Heading
import PhpRename.Proofs.Php.Read
import PhpRename.Proofs.Survey.Assignments
import PhpRename.Proofs.Symbols.Declared

/-!
# What a reading pass knows of classes

Only one of the observers learns declarations, and it learns them from the site alone. So what is
known of a class after a pass is its last declaration at the sites of the files, in order.

* `Look.declarations_learnt`: the declarations that some looks learn.
* `Symbols.class?_ofSources`: what a pass over files knows of a class.
* `Symbols.classes_known`: that is the heading of its last declaration, as far as it is read.
* `Symbols.backed_enum_unlinked`: the interfaces of an enumeration with a type are not known.
-/

namespace PhpRename

open Php

/-- The other observers learn no declarations. -/
theorem Observer.filterMap_facts {o : Observer} (ho : o ≠ .classes) (s : Site) (db : Symbols)
    (name : String) : (o.facts s db).filterMap (Fact.declaration? name) = [] := by
  rw [List.filterMap_eq_nil_iff]
  intro fact h
  cases o with
  | globals =>
    rw [facts, Facts.globals] at h
    split at h
    · obtain ⟨t, -, rfl⟩ := List.mem_map.1 h
      rfl
    · cases h
  | assignments =>
    rw [facts, Facts.assigned] at h
    split at h
    · cases h
    split at h
    · cases h
    split at h
    · cases h
    split at h
    · cases h
    split at h
    · obtain rfl := List.mem_singleton.1 h
      rfl
    · obtain rfl := List.mem_singleton.1 h
      rfl
  | typeHints =>
    obtain ⟨t, m, c, rfl⟩ := Facts.holds_of_hinted h
    rfl
  | annotations =>
    obtain ⟨t, m, c, rfl⟩ := Facts.holds_of_annotated h
    rfl
  | inclusions =>
    rw [facts, Facts.included] at h
    split at h
    · obtain rfl := List.mem_singleton.1 h
      rfl
    · cases h
  | classes => exact absurd rfl ho

namespace Look

variable {looks : List Look} {sources : List Source} {name : String}

/-- What a look learns about classes. -/
def declared (look : Look) : List Fact :=
  if look.observer = .classes then Facts.declared look.site else []

/-- **The declarations that some looks learn** are those at their sites. -/
theorem declarations_learnt (db : Symbols) (looks : List Look) (name : String) :
    (learnt db looks).filterMap (Fact.declaration? name) =
      (looks.flatMap declared).filterMap (Fact.declaration? name) := by
  induction looks generalizing db with
  | nil => rfl
  | cons look looks ih =>
    have hlook : (look.facts db).filterMap (Fact.declaration? name) =
        look.declared.filterMap (Fact.declaration? name) := by
      rw [facts, declared]
      split
      · rename_i ho
        rw [ho]
        rfl
      · rename_i ho
        exact Observer.filterMap_facts ho look.site db name
    rw [learnt, List.filterMap_append, ih, hlook, List.flatMap_cons, List.filterMap_append]

theorem class?_known (looks : List Look) (name : String) : (known Symbols.empty looks).class? name =
    ((looks.flatMap declared).filterMap (Fact.declaration? name)).getLast? := by
  rw [known_eq_learnAll, Symbols.class?_learnAll, declarations_learnt]
  exact Option.or_none

/-- Each site is looked at for classes once. -/
theorem flatMap_declared_all (sources : List Source) :
    (all sources).flatMap declared = (sources.flatMap Site.all).flatMap Facts.declared := by
  have hsite : ∀ s, (atSite s).flatMap declared = Facts.declared s := fun s => by
    simp [atSite, Observer.all, declared]
  rw [all, List.flatMap_assoc]
  exact List.flatMap_congr fun s _ => hsite s

/-- The site of a look is one of a file. -/
theorem exists_source_of_mem {look : Look} (h : look ∈ all sources) :
    ∃ source ∈ sources, look.site ∈ Site.all source := by
  obtain ⟨s, hs, hlook⟩ := List.mem_flatMap.1 h
  obtain ⟨o, -, rfl⟩ := List.mem_map.1 hlook
  exact List.mem_flatMap.1 hs

/-- What is known of a class at a look is declared at a site of a file. -/
theorem exists_declared {n : ℕ} {c : ClassDecl} (h : (knownAt sources n).class? name = some c) :
    ∃ source ∈ sources, ∃ s ∈ Site.all source,
      .declares c.name c.parent c.interfaces c.file ∈ Facts.declared s := by
  rw [knownAt, class?_known] at h
  obtain ⟨fact, hfact, hc⟩ := List.mem_filterMap.1 (List.mem_of_getLast? h)
  obtain ⟨look, hlook, hdeclared⟩ := List.mem_flatMap.1 hfact
  obtain ⟨source, hsource, hs⟩ := exists_source_of_mem (List.mem_of_mem_take hlook)
  rw [declared] at hdeclared
  split at hdeclared
  · exact ⟨source, hsource, look.site, hs, (Fact.declaration?_eq_some hc).2 ▸ hdeclared⟩
  · cases hdeclared

end Look

/-- **What a pass over files knows of a class** is its last declaration. -/
theorem Symbols.class?_ofSources (sources : List Source) (name : String) :
    (ofSources sources).class? name = (((sources.flatMap Site.all).flatMap Facts.declared).filterMap
      (Fact.declaration? name)).getLast? := by
  rw [ofSources_eq, ← Look.known_eq_learnAll, Look.class?_known, Look.flatMap_declared_all]

/-! ## Files that meet all their goals -/

namespace Php.Site

variable {s : Site} {files : List (Path × String)} {name : String}

/-- Where no class of a name is declared, nothing is learnt of it. -/
theorem filterMap_declared_eq_nil {path : Path} {content : String}
    (hp : parses content.toList = true) (hs : s ∈ all (Source.read path content))
    (h : s.declares name = false) :
    (Facts.declared s).filterMap (Fact.declaration? name) = [] := by
  rw [List.filterMap_eq_nil_iff]
  intro fact hfact
  obtain ⟨⟨w, hw, hk⟩, t, hnext, hname, parent, interfaces, rfl⟩ := exists_of_mem_declared hfact
  refine if_neg fun he => ?_
  have hdeclaration : s.isDeclaration = true := by
    by_contra hno
    rw [declared_eq_nil hp hs (by simpa using hno)] at hfact
    cases hfact
  have htrait : s.token.isKeyword "trait" = false := by
    have hne : ∀ w ∈ Goal.declaringWords, lowercase w ≠ lowercase "trait" := by decide +kernel
    simp only [Token.isKeyword, Bool.and_eq_true, decide_eq_true_eq] at hk
    simp [Token.isKeyword, hk.2, hne w hw]
  simp [declares, hdeclaration, htrait, hnext, hname, he] at h

/-- A site of some files that have been read is one of a file. -/
theorem exists_read_of_mem (hs : s ∈ (Source.readAll files).flatMap all) :
    ∃ file ∈ files, s ∈ all (Source.read file.1 file.2) := by
  obtain ⟨source, hsource, hs⟩ := List.mem_flatMap.1 hs
  obtain ⟨file, hfile, rfl⟩ := List.mem_map.1 hsource
  exact ⟨file, hfile, hs⟩

theorem flatMap_declared_eq_nil (hp : ∀ file ∈ files, parses file.2.toList = true) {sites : List Site}
    (hsites : sites ⊆ (Source.readAll files).flatMap all)
    (h : ∀ s ∈ sites, s.declares name = false) :
    (sites.flatMap Facts.declared).filterMap (Fact.declaration? name) = [] := by
  rw [List.filterMap_flatMap, List.flatMap_eq_nil_iff]
  intro s hs
  obtain ⟨file, hfile, hmem⟩ := exists_read_of_mem (hsites hs)
  exact filterMap_declared_eq_nil (hp file hfile) hmem (h s hs)

end Php.Site

namespace Symbols

variable {files : List (Path × String)}

/-- **What is known of a class is its last declaration.** -/
theorem class?_of_declared (hp : ∀ file ∈ files, parses file.2.toList = true) {name : String}
    {before after : List Site} {s : Site} {parent : Option String} {interfaces : List String}
    (hsites : (Source.readAll files).flatMap Site.all = before ++ s :: after)
    (hs : Facts.declared s = [.declares name parent interfaces s.path])
    (hlast : ∀ t ∈ after, t.declares name = false) :
    (ofSources (Source.readAll files)).class? name = some ⟨name, parent, interfaces, s.path⟩ := by
  have hafter : after ⊆ (Source.readAll files).flatMap Site.all := by
    rw [hsites]
    exact fun t ht => List.mem_append_right _ (List.mem_cons_of_mem s ht)
  have hfact : Fact.declaration? name (.declares name parent interfaces s.path) =
      some ⟨name, parent, interfaces, s.path⟩ := if_pos rfl
  have hrecord : (Facts.declared s).filterMap (Fact.declaration? name) =
      [⟨name, parent, interfaces, s.path⟩] := by
    rw [hs, List.filterMap_cons_some hfact, List.filterMap_nil]
  rw [class?_ofSources, hsites, List.flatMap_append, List.flatMap_cons, List.filterMap_append,
    List.filterMap_append, hrecord, Site.flatMap_declared_eq_nil hp hafter hlast, List.append_nil,
    List.getLast?_concat]

/-- **What a pass over files knows of classes.** Let the files meet all their goals. Then nothing is
learnt of classes but where a declaration begins; a class whose name is declared nowhere is not
known; and what is known of a class is its last declaration, with the file. That is what is read of
its heading, and what the heading says, unless it has a name that is relative to the namespace, or
the type of an enumeration. -/
theorem classes_known (hp : ∀ file ∈ files, parses file.2.toList = true) :
    (∀ s ∈ (Source.readAll files).flatMap Site.all, s.isDeclaration = false →
      Facts.declared s = []) ∧
    (∀ name, (∀ s ∈ (Source.readAll files).flatMap Site.all, s.declares name = false) →
      (ofSources (Source.readAll files)).class? name = none) ∧
    ∀ name before s after, (Source.readAll files).flatMap Site.all = before ++ s :: after →
      s.declares name = true → (∀ t ∈ after, t.declares name = false) →
      ∃ c, (ofSources (Source.readAll files)).class? name = some c ∧ c.name = name ∧
        c.file = s.path ∧ ∀ h : Heading, h.Stands s →
          c = h.record s.path ∧ (h.isPlain = true → c = h.asWritten s.path) := by
  refine ⟨fun s hs hno => ?_, fun name hno => ?_, fun name before s after hsites hs hlast => ?_⟩
  · obtain ⟨file, hfile, hs⟩ := Site.exists_read_of_mem hs
    exact Site.declared_eq_nil (hp file hfile) hs hno
  · rw [class?_ofSources, Site.flatMap_declared_eq_nil hp (List.Subset.refl _) hno]
    rfl
  · have hmem : s ∈ (Source.readAll files).flatMap Site.all := by simp [hsites]
    obtain ⟨file, hfile, hmem⟩ := Site.exists_read_of_mem hmem
    obtain ⟨parent, interfaces, hdeclared⟩ := Site.exists_declared_eq (hp file hfile) hmem hs
    refine ⟨_, class?_of_declared hp hsites hdeclared hlast, rfl, rfl, fun h hstands => ?_⟩
    have hdeclaration : s.isDeclaration = true := by
      simp only [Site.declares, Bool.and_eq_true] at hs
      exact hs.1.1
    have hprev := Site.prev_of_isDeclaration (hp file hfile) hmem hdeclaration
    have hrecord : ⟨name, parent, interfaces, s.path⟩ = h.record s.path := by
      have he := (Heading.declared_eq hstands hprev).symm.trans hdeclared
      generalize h.record s.path = c at he ⊢
      cases c
      cases he
      rfl
    exact ⟨hrecord, fun hplain => hrecord.trans (Heading.record_eq_asWritten hplain s.path)⟩

/-- A class that is declared in two files. -/
def redeclared : List (Path × String) :=
  [(⟨"/a.php"⟩, "<?php class A implements I \x7b\x7d"),
    (⟨"/b.php"⟩, "<?php class A extends \\N\\B implements C \x7b\x7d")]

/-- The heading of its last declaration. -/
def redeclaredHeading : Heading :=
  ⟨.cls, "A", [⟨false, "B"⟩], false, [⟨false, "C"⟩]⟩

/-- What stands behind the keyword of its last declaration. -/
def redeclaredTokens : List Token :=
  [⟨.name, "name", "A", 12, 1, 1⟩, ⟨.keyword, "extends", "extends", 14, 1, 1⟩,
    ⟨.punct, "\\", "\\", 22, 1, 1⟩, ⟨.name, "name", "N", 23, 1, 1⟩, ⟨.punct, "\\", "\\", 24, 1, 1⟩,
    ⟨.name, "name", "B", 25, 1, 1⟩, ⟨.keyword, "implements", "implements", 27, 1, 1⟩,
    ⟨.name, "name", "C", 38, 1, 1⟩, ⟨.punct, "\x7b", "\x7b", 40, 1, 1⟩,
    ⟨.punct, "\x7d", "\x7d", 41, 1, 1⟩]

theorem redeclaredHeading_stands {s : Site} (hword : s.token.isKeyword "class" = true)
    (hafter : s.after = redeclaredTokens) : redeclaredHeading.Stands s := by
  have hextends : Clause "extends" (fromCode (redeclaredTokens.drop 1)) [⟨false, "B"⟩]
      (fromCode (redeclaredTokens.drop 6)) := by
    refine .names (by decide +kernel) (.one (.rooted rfl (.more rfl rfl (.last rfl ?_))) ?_)
    · rintro u ⟨⟩
      exact ⟨nofun, rfl⟩
    · rintro u ⟨⟩
      rfl
  have himplements : Clause "implements" (fromCode (redeclaredTokens.drop 6)) [⟨false, "C"⟩]
      (fromCode (redeclaredTokens.drop 8)) := by
    refine .names (by decide +kernel) (.one (.plain (.last rfl ?_)) ?_)
    · rintro u ⟨⟩
      exact ⟨nofun, rfl⟩
    · rintro u ⟨⟩
      rfl
  refine ⟨by decide, hword, _, redeclaredTokens.drop 1, _, _, _, by rw [hafter]; rfl, rfl, rfl,
    hextends, .absent ?_, himplements, ?_⟩
  · rintro u ⟨⟩
    rfl
  · rintro u ⟨⟩
    rfl

/-- Its last declaration is what is known of it. -/
theorem classes_known_redeclared :
    (∀ file ∈ redeclared, parses file.2.toList = true) ∧ redeclaredHeading.isPlain = true ∧
    (ofSources (Source.readAll redeclared)).class? "A" =
      some (redeclaredHeading.asWritten ⟨"/b.php"⟩) := by
  have hp : ∀ file ∈ redeclared, parses file.2.toList = true := by decide +kernel
  have hplain : redeclaredHeading.isPlain = true := by decide
  let sites := (Source.readAll redeclared).flatMap Site.all
  let s := sites.get ⟨8, by decide +kernel⟩
  have hsites : sites = sites.take 8 ++ s :: sites.drop 9 := by
    have hdrop : sites.drop 8 = s :: sites.drop 9 := List.drop_eq_getElem_cons _
    rw [← hdrop, List.take_append_drop]
  have hstands : redeclaredHeading.Stands s :=
    redeclaredHeading_stands (by decide +kernel) (by decide +kernel)
  have hlast : ∀ t ∈ sites.drop 9, t.declares "A" = false := by
    have hall : (sites.drop 9).all (fun t => !t.declares "A") = true := by decide +kernel
    simpa using hall
  have hspelling : s.path.spelling = "/b.php" := by decide +kernel
  have hpath : s.path = ⟨"/b.php"⟩ := congrArg Path.mk hspelling
  obtain ⟨c, hknown, -, -, hread⟩ :=
    (classes_known hp).2.2 "A" _ s _ hsites (by decide +kernel) hlast
  rw [(hread redeclaredHeading hstands).2 hplain, hpath] at hknown
  exact ⟨hp, hplain, hknown⟩

/-- **The interfaces of an enumeration with a type are not known.** -/
theorem backed_enum_unlinked :
    let files : List (Path × String) :=
      [(⟨"/p/t.php"⟩, "<?php enum A: string implements I \x7b\x7d")]
    (∀ file ∈ files, parses file.2.toList = true) ∧
    ¬ ∀ s ∈ (Source.readAll files).flatMap Site.all, ∀ h : Heading, s.isDeclaration = true →
      h.Stands s → (ofSources (Source.readAll files)).class? h.name = some (h.asWritten s.path) := by
  intro files
  refine ⟨by decide +kernel, fun hall => ?_⟩
  let sites := (Source.readAll files).flatMap Site.all
  let s := sites.get ⟨1, by decide +kernel⟩
  have hafter : s.after = [⟨.name, "name", "A", 11, 1, 1⟩, ⟨.punct, ":", ":", 12, 1, 1⟩,
      ⟨.other, "primitive_type", "string", 14, 1, 1⟩,
      ⟨.keyword, "implements", "implements", 21, 1, 1⟩, ⟨.name, "name", "I", 32, 1, 1⟩,
      ⟨.punct, "\x7b", "\x7b", 34, 1, 1⟩, ⟨.punct, "\x7d", "\x7d", 35, 1, 1⟩] := by
    decide +kernel
  let h : Heading := ⟨.enumeration, "A", [], true, [⟨false, "I"⟩]⟩
  have himplements : Clause "implements" (fromCode (s.after.drop 3)) [⟨false, "I"⟩]
      (fromCode (s.after.drop 5)) := by
    rw [hafter]
    refine .names (by decide +kernel) (.one (.plain (.last rfl ?_)) ?_)
    · rintro u ⟨⟩
      exact ⟨nofun, rfl⟩
    · rintro u ⟨⟩
      rfl
  have hstands : h.Stands s := by
    refine ⟨by decide, by decide +kernel, _, s.after.drop 1, _, _, _, by rw [hafter]; rfl, rfl, rfl,
      .absent ?_, ?_, himplements, ?_⟩
    · rw [hafter]
      rintro u ⟨⟩
      rfl
    · rw [hafter]
      exact .type rfl rfl
    · rw [hafter]
      rintro u ⟨⟩
      rfl
  have hknown := hall s (List.get_mem _ _) h (by decide +kernel) hstands
  have hinterfaces : ((ofSources (Source.readAll files)).class? "A").map (·.interfaces) = some [] := by
    decide +kernel
  rw [hknown] at hinterfaces
  cases hinterfaces

end Symbols

end PhpRename
