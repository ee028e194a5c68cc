import PhpRename.Proofs.Doc.Type
import PhpRename.Proofs.Php.Read
import PhpRename.Proofs.Survey.Declarations
import PhpRename.Proofs.Survey.Hints

/-!
# The classes that bindings name

A reading pass takes the classes of variables from `new`, from the types in front of variables, and
from doc comments. What stands in the code is an identifier. What stands in a doc comment is cut out
of free text, and need not be one. Names of built-in types are left out where they are written, but
not where `self`, `static` or `parent` stands for a class that has such a name.

* `Symbols.NamesClass`: what the class of a binding is called.
* `Symbols.bindings_name_classes`: the classes of all bindings are called like that.
* `Symbols.bindings_name_arrays`: a binding may name the shape of an array.
-/

namespace PhpRename

open Php

namespace Php.Source

/-- The name is that of a class around some code of the file, or of one that a class of the file
extends. -/
inductive KnowsClass (source : Source) (name : String) : Prop
  | around (h : ∃ sc ∈ source.scopes, sc.cls = some name)
  | above (h : ∃ s ∈ Site.all source, ∃ cls interfaces file,
      .declares cls (some name) interfaces file ∈ Facts.declared s)

/-- The name is what is left of an alternative of a type in a doc comment of the file. -/
def Annotates (source : Source) (name : String) : Prop :=
  ∃ t ∈ source.tokens, t.kind = .docComment ∧
    ∃ a ∈ Doc.typedVars t.text.toList, Doc.Alternative a.type name

end Php.Source

/-- What the class of a binding is called. -/
structure Symbols.NamesClass (sources : List Source) (cls : String) (source : Evidence) : Prop where
  /-- It is an identifier, unless it is what a doc comment writes. -/
  spelled : isIdentifier cls = true ∨ source = .docComment ∧ Doc.isBare cls = true ∧
    ∃ file ∈ sources, file.Annotates cls
  /-- It is not a built-in type, unless a class has its name. -/
  called : isPrimitive cls = false ∨ ∃ file ∈ sources, file.KnowsClass cls

/-! ## Classes that are declared -/

namespace Facts

variable {s : Site} {fact : Fact} {name w : String} {path : Path} {content : String}

theorem isIdentifier_of_namesFrom {n : ℕ} {start : Option Site}
    (hstart : ∀ s, start = some s → s ∈ Site.all (Source.read path content))
    (h : name ∈ (namesFrom n start).1) : isIdentifier name = true := by
  induction n generalizing start with
  | zero => cases h
  | succ n ih =>
    cases start with
    | none => cases h
    | some s =>
      have hs := hstart s rfl
      rw [namesFrom] at h
      split at h
      · cases h
      rename_i first last hclass
      have hfirst := Site.isIdentifier_of_className? hs hclass
      split at h
      · obtain rfl := List.mem_singleton.1 h
        exact hfirst
      rename_i next hnext
      split at h
      swap
      · obtain rfl := List.mem_singleton.1 h
        exact hfirst
      -- the names behind the comma
      rcases List.mem_cons.1 h with rfl | h
      · exact hfirst
      · refine ih (fun t ht => ?_) h
        exact Site.nextCode?_mem_all (Site.nextCode?_mem_all (Site.last_mem_all hs hclass) hnext) ht

theorem isIdentifier_of_clause {at_ : Option Site}
    (hat : ∀ s, at_ = some s → s ∈ Site.all (Source.read path content))
    (h : name ∈ (clause w at_).1) : isIdentifier name = true := by
  rw [clause.eq_def] at h
  split at h
  · rename_i s
    split at h
    · exact isIdentifier_of_namesFrom (fun t ht => Site.nextCode?_mem_all (hat s rfl) ht) h
    · cases h
  · cases h

/-- The parents of classes are identifiers. -/
theorem isIdentifier_of_declared (hs : s ∈ Site.all (Source.read path content)) {cls parent : String}
    {interfaces : List String} {file : Path}
    (h : .declares cls (some parent) interfaces file ∈ declared s) : isIdentifier parent = true := by
  rw [declared] at h
  dsimp only at h
  split at h
  · cases h
  split at h
  · cases h
  split at h
  · cases h
  rename_i front hnext
  split at h
  · cases h
  split at h
  · cases List.mem_singleton.1 h
  · have he := List.mem_singleton.1 h
    injection he with _ hparent
    have hfront := Site.nextCode?_mem_all hs hnext
    exact isIdentifier_of_clause (fun t ht => Site.nextCode?_mem_all hfront ht)
      (List.mem_of_head? hparent.symm)

end Facts

/-! ## What a name means -/

namespace Look

variable {files : List (Path × String)} {look : Look} {n : ℕ} {name cls : String}
  {scope : VarScope} {source : Evidence}

/-- The files of the looks have been read. -/
theorem exists_read_of_getElem? (h : (all (Source.readAll files))[n]? = some look) :
    ∃ path content, Source.read path content ∈ Source.readAll files ∧
      look.site ∈ Site.all (Source.read path content) := by
  obtain ⟨source, hsource, hs⟩ := exists_source_of_mem (List.mem_of_getElem? h)
  obtain ⟨file, -, rfl⟩ := List.mem_map.1 hsource
  exact ⟨file.1, file.2, hsource, hs⟩

/-- **What a name means at a look**: itself, or a class that one of the files knows. -/
theorem resolved (h : (all (Source.readAll files))[n]? = some look)
    (hcls : look.site.resolve? (knownAt (Source.readAll files) n) name = some cls) :
    (cls = lastSegment name ∧ isPrimitive cls = false) ∨
      isIdentifier cls = true ∧ ∃ file ∈ Source.readAll files, file.KnowsClass cls := by
  obtain ⟨path, content, hsource, hs⟩ := exists_read_of_getElem? h
  rcases Site.resolve?_eq_some hcls with ⟨he, -, hprimitive⟩ | hcls | ⟨c, -, hparent⟩
  · exact .inl ⟨he, hprimitive⟩
  · obtain ⟨sc, hsc, hname⟩ := Site.exists_scope_of_cls? hs hcls
    exact .inr ⟨Source.isIdentifier_of_scope hsc hname, _, hsource, .around ⟨sc, hsc, hname⟩⟩
  · obtain ⟨decl, hdecl, hparent⟩ := Option.bind_eq_some_iff.1 hparent
    obtain ⟨other, hother, s, hs, hdeclared⟩ := exists_declared hdecl
    rw [hparent] at hdeclared
    obtain ⟨file, -, rfl⟩ := List.mem_map.1 hother
    exact .inr ⟨Facts.isIdentifier_of_declared hs hdeclared, _, hother,
      .above ⟨s, hs, _, _, _, hdeclared⟩⟩

/-- A name that is an identifier means a class that is called like a class. -/
theorem namesClass_of_identifier (h : (all (Source.readAll files))[n]? = some look)
    (hname : isIdentifier name = true)
    (hcls : look.site.resolve? (knownAt (Source.readAll files) n) name = some cls)
    (source : Evidence) : Symbols.NamesClass (Source.readAll files) cls source := by
  rcases resolved h hcls with ⟨rfl, hprimitive⟩ | ⟨hcls, hknows⟩
  · exact ⟨.inl ((lastSegment_of_isIdentifier hname).symm ▸ hname), .inl hprimitive⟩
  · exact ⟨.inl hcls, .inr hknows⟩

/-! ## What is taken for the class of a variable -/

theorem namesClass_of_assigned (h : (all (Source.readAll files))[n]? = some look)
    (hfact : .holds scope name cls source ∈
      Facts.assigned look.site (knownAt (Source.readAll files) n)) :
    Symbols.NamesClass (Source.readAll files) cls source := by
  obtain ⟨path, content, -, hs⟩ := exists_read_of_getElem? h
  rw [Facts.assigned] at hfact
  split at hfact
  · cases hfact
  split at hfact
  · cases hfact
  split at hfact
  · cases hfact
  rename_i assign hassign
  split at hfact
  · cases hfact
  split at hfact
  swap
  · cases List.mem_singleton.1 hfact
  rename_i cls' hcreated
  cases List.mem_singleton.1 hfact
  obtain ⟨new, start, written, hnew, -, hstart, hwritten, hcls⟩ := Facts.created?_eq_some.1 hcreated
  have hassign := Site.nextCode?_mem_all hs hassign
  have hnew : new ∈ Site.all (Source.read path content) := by
    rcases hnew with hnew | ⟨mark, hmark, -, hnew⟩
    · exact Site.nextCode?_mem_all hassign hnew
    · exact Site.nextCode?_mem_all (Site.nextCode?_mem_all hassign hmark) hnew
  obtain ⟨⟨written', last⟩, hclass, rfl⟩ := Option.map_eq_some_iff.1 hwritten
  have hname := Site.isIdentifier_of_className? (Site.nextCode?_mem_all hnew hstart) hclass
  exact namesClass_of_identifier h hname hcls _

theorem namesClass_of_hinted (h : (all (Source.readAll files))[n]? = some look)
    (hfact : .holds scope name cls source ∈
      Facts.hinted look.site (knownAt (Source.readAll files) n)) :
    Symbols.NamesClass (Source.readAll files) cls source := by
  obtain ⟨path, content, -, hs⟩ := exists_read_of_getElem? h
  rw [Facts.hinted] at hfact
  split at hfact
  · cases hfact
  dsimp only at hfact
  split at hfact
  · cases hfact
  split at hfact
  swap
  · cases hfact
  rename_i cls' hcls
  cases List.mem_singleton.1 hfact
  obtain ⟨written, hfind, hcls⟩ := Option.bind_eq_some_iff.1 hcls
  have hmem := List.mem_reverse.1 (List.mem_of_find?_eq_some hfind)
  have hprimitive : isPrimitive written = false := by simpa using List.find?_some hfind
  obtain ⟨type, past, hread⟩ :=
    Facts.exists_typeRead true ((Site.code look.site.before).dropWhile Facts.isTypeMark)
  obtain ⟨t, ht, rfl, htype⟩ := hread.names _ hmem
  have hidentifier : isIdentifier t.text = true := by
    rw [Facts.isTypeName, hprimitive, Bool.false_or] at htype
    split at htype
    · rename_i hname
      have hbefore : t ∈ look.site.before :=
        List.mem_of_mem_filter
          ((List.dropWhile_suffix _).subset (hread.tokens ▸ List.mem_append_left _ ht))
      have hmem : t ∈ (Source.read path content).tokens := by
        rw [Site.tokens_eq hs]
        exact List.mem_append_left _ (List.mem_reverse.2 hbefore)
      exact Source.isIdentifier_of_name hmem hname
    · exact isIdentifier_of_isRelative htype
    · exact isIdentifier_of_isRelative htype
    · cases htype
  exact namesClass_of_identifier h hidentifier hcls _

theorem namesClass_of_tagged {a : Doc.TypedVar} (h : (all (Source.readAll files))[n]? = some look)
    (hdoc : look.site.token.kind = .docComment)
    (ha : a ∈ Doc.typedVars look.site.token.text.toList)
    (hcls : (Facts.firstClass? a.type).bind
      (look.site.resolve? (knownAt (Source.readAll files) n)) = some cls) :
    Symbols.NamesClass (Source.readAll files) cls .docComment := by
  obtain ⟨path, content, hsource, hs⟩ := exists_read_of_getElem? h
  obtain ⟨written, hfirst, hcls⟩ := Option.bind_eq_some_iff.1 hcls
  obtain ⟨halternative, hbare, -⟩ :=
    Facts.alternative_of_firstClass? (Doc.isTypeSign_of_mem_typedVars ha) hfirst
  rcases resolved h hcls with ⟨rfl, hprimitive⟩ | ⟨hcls, hknows⟩
  · rw [Doc.lastSegment_of_isBare hbare] at hprimitive ⊢
    exact ⟨.inr ⟨rfl, hbare, _, hsource, look.site.token, Site.token_mem hs, hdoc, a, ha,
      halternative⟩, .inl hprimitive⟩
  · exact ⟨.inl hcls, .inr hknows⟩

theorem namesClass_of_annotated (h : (all (Source.readAll files))[n]? = some look)
    (hfact : .holds scope name cls source ∈
      Facts.annotated look.site (knownAt (Source.readAll files) n)) :
    Symbols.NamesClass (Source.readAll files) cls source := by
  rw [Facts.annotated] at hfact
  split at hfact
  swap
  · cases hfact
  rename_i hdoc
  obtain ⟨a, ha, hfact⟩ := List.mem_flatMap.1 hfact
  rw [Facts.taggedFacts] at hfact
  split at hfact
  · cases hfact
  rename_i cls' hcls
  have hnames := namesClass_of_tagged h hdoc ha hcls
  split at hfact
  · -- the annotation of a parameter
    split at hfact
    · cases List.mem_singleton.1 hfact
      exact hnames
    · cases hfact
  · -- that of a variable with its name
    split at hfact
    · cases hfact
    · cases List.mem_singleton.1 hfact
      exact hnames
  · -- that of the variable after the comment
    split at hfact
    · split at hfact
      · cases List.mem_singleton.1 hfact
        exact hnames
      · cases hfact
    · cases hfact
  · cases hfact

theorem namesClass_of_holds (h : (all (Source.readAll files))[n]? = some look)
    (hfact : .holds scope name cls source ∈ look.facts (knownAt (Source.readAll files) n)) :
    Symbols.NamesClass (Source.readAll files) cls source := by
  rw [facts] at hfact
  cases ho : look.observer with
  | globals =>
    rw [ho, Observer.facts, Facts.globals] at hfact
    split at hfact
    · obtain ⟨t, -, ht⟩ := List.mem_map.1 hfact
      cases ht
    · cases hfact
  | assignments => exact namesClass_of_assigned h (ho ▸ hfact)
  | typeHints => exact namesClass_of_hinted h (ho ▸ hfact)
  | annotations => exact namesClass_of_annotated h (ho ▸ hfact)
  | inclusions =>
    rw [ho, Observer.facts, Facts.included] at hfact
    split at hfact
    · cases List.mem_singleton.1 hfact
    · cases hfact
  | classes =>
    rw [ho, Observer.facts, Facts.declared] at hfact
    dsimp only at hfact
    split at hfact
    · cases hfact
    split at hfact
    · cases hfact
    split at hfact
    · cases hfact
    split at hfact
    · cases hfact
    split at hfact
    · cases List.mem_singleton.1 hfact
    · cases List.mem_singleton.1 hfact

end Look

/-! ## Bindings -/

namespace Symbols

variable {files : List (Path × String)} {key : VarKey} {cls : String} {source : Evidence}

/-- **The classes that bindings name.** After a pass over any files, the class of a binding is an
identifier, or a doc comment writes it, cut out of one of its types; then it may be anything without
blanks, namespace, arguments, and brackets at its end. It is not a built-in type, unless a class that
the files declare or extend is called like one. -/
theorem bindings_name_classes
    (h : lookup key (ofSources (Source.readAll files)).bindings = some (.resolved cls source)) :
    NamesClass (Source.readAll files) cls source := by
  rw [ofSources_eq, lookup_learnAll] at h
  have hsighting : .holds cls source ∈
      empty.sightings key (Look.learnt empty (Look.all (Source.readAll files))) := by
    rcases Binding.noteAll_eq_resolved h with h | h
    · exact h
    · cases h
  obtain ⟨scope, name, hfact⟩ := exists_holds hsighting
  obtain ⟨n, look, hn, hfact⟩ := Look.exists_of_mem_learnt hfact
  exact look.namesClass_of_holds hn hfact

/-- A class that is called like a built-in type is the class of a binding where `self` stands for
it. -/
theorem bindings_name_classes_self :
    let files : List (Path × String) :=
      [(⟨"/r.php"⟩, "<?php\nclass Resource \x7b function m(self $r) \x7b\x7d \x7d\n")]
    let key : VarKey := (.function ⟨"/r.php"⟩ (some "Resource") "m", "$r")
    lookup key (ofSources (Source.readAll files)).bindings = some (.resolved "Resource" .typeHint) ∧
      NamesClass (Source.readAll files) "Resource" .typeHint ∧ isPrimitive "Resource" = true := by
  intro files key
  have hknown : lookup key (ofSources (Source.readAll files)).bindings =
      some (.resolved "Resource" .typeHint) := by
    decide +kernel
  exact ⟨hknown, bindings_name_classes hknown, by decide +kernel⟩

/-- **A binding may name the shape of an array.** -/
theorem bindings_name_arrays :
    let content := "<?php\n/** @var array\x7ba:int\x7d $x */\n$x = f();\n"
    parses content.toList = true ∧
    ¬ ∀ key cls source, lookup key (ofSources (Source.readAll [(⟨"/p/t.php"⟩, content)])).bindings =
        some (.resolved cls source) → isIdentifier cls = true ∧ isPrimitive cls = false := by
  intro content
  refine ⟨by decide +kernel, fun hall => ?_⟩
  have hknown : lookup (.global, "$x") (ofSources (Source.readAll [(⟨"/p/t.php"⟩, content)])).bindings =
      some (.resolved "array\x7ba:int\x7d" .docComment) := by
    decide +kernel
  exact absurd (hall _ _ _ hknown).1 (by decide +kernel)

end Symbols

end PhpRename
