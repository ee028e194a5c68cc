import PhpRename.Proofs.Php.Token
import PhpRename.Proofs.Survey.Looks

/-!
# What a known assignment says of the files

Where a reading pass knows the class of a variable from an assignment alone, nothing in any of the
files says otherwise. Whatever is found about the variable is an assignment of that class: one piece
of evidence of any other kind, at any place of any file, would have overridden it for good.

* `Site.Assigns`, `Site.Creates`: an assignment, and one of a new object, as they stand in a file.
* `Look.assignment_never_contradicted`: what holds of every place where the variable is assigned.
-/

namespace PhpRename

open Php

namespace Php.Site

/-- A plain variable stands at the site, outside the bodies of classes, and is assigned what follows
the equals sign at `assign`. -/
structure Assigns (s assign : Site) : Prop where
  isVariable : s.token.kind = .variable
  notThis : s.token.text ≠ "$this"
  outside : s.inClassBody = false
  plain : ∀ t, s.prev? = some t →
    ¬ t.isMemberAccess = true ∧ ¬ t.isPunct "::" = true ∧ ¬ t.isPunct "$" = true
  next : s.nextCode? = some assign
  equals : assign.token.isPunct "=" = true

/-- What follows the equals sign at `assign` is `new` or `&new` with the name of a class, which is
`cls` as names are meant at the site `s`. -/
def Creates (s assign : Site) (db : Symbols) (cls : String) : Prop :=
  ∃ new start written, (assign.nextCode? = some new ∨
      ∃ mark, assign.nextCode? = some mark ∧ mark.token.isPunct "&" = true ∧
        mark.nextCode? = some new) ∧
    new.token.isKeyword "new" = true ∧ new.nextCode? = some start ∧
    start.className?.map Prod.fst = some written ∧ s.resolve? db written = some cls

end Php.Site

namespace Facts

variable {s assign : Site} {db : Symbols} {cls : String} {fact : Fact}

/-- The class is named after the keyword at the site `new`. -/
theorem named_after_new {new : Site} :
    (if !new.token.isKeyword "new" then none
      else new.nextCode?.bind fun start => start.className?.bind fun x => s.resolve? db x.1) =
        some cls ↔
      new.token.isKeyword "new" = true ∧ ∃ start written, new.nextCode? = some start ∧
        start.className?.map Prod.fst = some written ∧ s.resolve? db written = some cls := by
  cases hkeyword : new.token.isKeyword "new" with
  | false => exact ⟨nofun, nofun⟩
  | true =>
    simp only [Bool.not_true, Bool.false_eq_true, if_false, true_and, Option.bind_eq_some_iff,
      Option.map_eq_some_iff]
    constructor
    · rintro ⟨start, hstart, x, hx, hcls⟩
      exact ⟨start, x.1, hstart, ⟨x, hx, rfl⟩, hcls⟩
    · rintro ⟨start, written, hstart, ⟨x, hx, rfl⟩, hcls⟩
      exact ⟨start, hstart, x, hx, hcls⟩

/-- **When a new object is found** after an equals sign. -/
theorem created?_eq_some : created? s assign db = some cls ↔ s.Creates assign db cls := by
  unfold created?
  constructor
  · intro h
    obtain ⟨first, hfirst, h⟩ := Option.bind_eq_some_iff.1 h
    by_cases hmark : first.token.isPunct "&" = true
    · dsimp only at h
      rw [if_pos hmark] at h
      obtain ⟨new, hnew, h⟩ := Option.bind_eq_some_iff.1 h
      obtain ⟨hkeyword, start, written, h⟩ := named_after_new.1 h
      exact ⟨new, start, written, .inr ⟨first, hfirst, hmark, hnew⟩, hkeyword, h⟩
    · dsimp only at h
      rw [if_neg hmark] at h
      obtain ⟨hkeyword, start, written, h⟩ := named_after_new.1 h
      exact ⟨first, start, written, .inl hfirst, hkeyword, h⟩
  · rintro ⟨new, start, written, hnew, hkeyword, h⟩
    have hnamed := named_after_new.2 ⟨hkeyword, start, written, h⟩
    rcases hnew with hfirst | ⟨mark, hfirst, hmark, hnew⟩
    · refine Option.bind_eq_some_iff.2 ⟨new, hfirst, ?_⟩
      dsimp only
      rw [if_neg (Token.not_isPunct_of_isKeyword hkeyword)]
      exact hnamed
    · refine Option.bind_eq_some_iff.2 ⟨mark, hfirst, ?_⟩
      dsimp only
      rw [if_pos hmark]
      exact Option.bind_eq_some_iff.2 ⟨new, hnew, hnamed⟩

/-- What the assignment at a site says. -/
def assignment (s assign : Site) (db : Symbols) : Sighting :=
  match created? s assign db with
  | some cls => .holds cls .assignment
  | none => .isAssigned

theorem creates_of_assignment (h : assignment s assign db = .holds cls .assignment) :
    s.Creates assign db cls := by
  rw [assignment] at h
  split at h
  · next c hc =>
    cases h
    exact created?_eq_some.1 hc
  · cases h

/-- Something is said at every assignment. -/
theorem assigned_eq (h : s.Assigns assign) (db : Symbols) :
    assigned s db = [(assignment s assign db).fact s.varScope s.token.text] := by
  have hplain : s.prev?.any qualifiesVariable = false := by
    cases hprev : s.prev? with
    | none => rfl
    | some t =>
      obtain ⟨haccess, hstatic, hdollar⟩ := h.plain t hprev
      simp [qualifiesVariable, haccess, hstatic, hdollar]
  rw [assigned, if_neg (by simp [h.isVariable, h.notThis, h.outside]),
    if_neg (Bool.eq_false_iff.1 hplain), h.next, assignment]
  dsimp only
  rw [if_neg (by simp [h.equals])]
  cases created? s assign db <;> rfl

/-- A type in front of a variable is evidence of that kind. -/
theorem holds_of_hinted (h : fact ∈ hinted s db) :
    ∃ scope name cls, fact = .holds scope name cls .typeHint := by
  rw [hinted] at h
  split at h
  · cases h
  dsimp only at h
  split at h
  · cases h
  split at h
  · exact ⟨_, _, _, List.mem_singleton.1 h⟩
  · cases h

theorem holds_of_tagged {a : Doc.TypedVar} (h : fact ∈ taggedFacts s db a) :
    ∃ scope name cls, fact = .holds scope name cls .docComment := by
  rw [taggedFacts] at h
  split at h
  · cases h
  split at h
  · -- the annotation of a parameter
    split at h
    · exact ⟨_, _, _, List.mem_singleton.1 h⟩
    · cases h
  · -- that of a variable with its name
    split at h
    · cases h
    · exact ⟨_, _, _, List.mem_singleton.1 h⟩
  · -- that of the variable after the comment
    split at h
    · split at h
      · exact ⟨_, _, _, List.mem_singleton.1 h⟩
      · cases h
    · cases h
  · cases h

/-- An annotation in a doc comment is evidence of that kind. -/
theorem holds_of_annotated (h : fact ∈ annotated s db) :
    ∃ scope name cls, fact = .holds scope name cls .docComment := by
  rw [annotated] at h
  split at h
  · obtain ⟨a, -, ha⟩ := List.mem_flatMap.1 h
    exact holds_of_tagged ha
  · cases h

end Facts

namespace Look

open Symbols

variable {sources : List Source} {look : Look} {n : ℕ} {key : VarKey} {fact : Fact} {r : Sighting}
  {scope : VarScope} {name cls : String}

/-- What a look finds that is not a `global` statement is evidence that the pass finds. -/
theorem mem_sightings (h : (all sources)[n]? = some look)
    (hglobals : ∀ fact ∈ look.facts (knownAt sources n), ∀ t m, fact ≠ .isGlobal t m)
    (hfact : fact ∈ look.facts (knownAt sources n))
    (hr : (knownAt sources n).sighting? key fact = some r) : r ∈ sightings sources key := by
  refine sightings_of_getElem? h key ?_
  rw [sightings_eq_filterMap hglobals]
  exact List.mem_filterMap.2 ⟨fact, hfact, hr⟩

/-- A declaration that is found is evidence that the pass finds. -/
theorem declaration_mem_sightings (h : (all sources)[n]? = some look)
    (hlook : look.observer = .typeHints ∨ look.observer = .annotations)
    (hfact : fact ∈ look.facts (knownAt sources n))
    (hr : (knownAt sources n).sighting? key fact = some r) :
    r ∈ sightings sources key ∧ r.isDeclared = true := by
  have hholds : ∀ fact ∈ look.facts (knownAt sources n),
      ∃ t m c, ∃ source : Evidence, source.isDeclared = true ∧ fact = .holds t m c source := by
    intro fact hfact
    rw [facts] at hfact
    rcases hlook with hlook | hlook
    · rw [hlook] at hfact
      obtain ⟨t, m, c, he⟩ := Facts.holds_of_hinted hfact
      exact ⟨t, m, c, .typeHint, rfl, he⟩
    · rw [hlook] at hfact
      obtain ⟨t, m, c, he⟩ := Facts.holds_of_annotated hfact
      exact ⟨t, m, c, .docComment, rfl, he⟩
  refine ⟨mem_sightings h (fun fact hfact t m => ?_) hfact hr, ?_⟩
  · obtain ⟨t', m', c, source, -, rfl⟩ := hholds fact hfact
    exact nofun
  · obtain ⟨t, m, c, source, hsource, rfl⟩ := hholds fact hfact
    rw [sighting?] at hr
    split at hr
    · cases hr
      exact hsource
    · cases hr

/-- An assignment that is found is evidence that the pass finds. -/
theorem assignment_mem_sightings {s assign : Site}
    (h : (all sources)[n]? = some ⟨.assignments, s⟩) (hs : s.Assigns assign)
    (hkey : (((knownAt sources n).scopeOf s.varScope s.token.text, s.token.text) == key) = true) :
    Facts.assignment s assign (knownAt sources n) ∈ sightings sources key := by
  have hfacts : (⟨.assignments, s⟩ : Look).facts (knownAt sources n) =
      [(Facts.assignment s assign (knownAt sources n)).fact s.varScope s.token.text] :=
    Facts.assigned_eq hs (knownAt sources n)
  refine mem_sightings h ?_ (hfacts ▸ List.mem_singleton_self _) (sighting?_fact hkey _)
  rw [hfacts]
  exact List.forall_mem_singleton.2 (fact_ne_isGlobal _ _ _)

/-- **An assignment that is known is contradicted nowhere.** Let a pass over files know of a
variable, by the scope it lives in, that it is assigned a new object of a class, and that alone.
Then all evidence for it in the whole pass is an assignment of that class. Wherever a plain variable
of its name is assigned that lives in that scope by what is known before it, it is assigned a new
object of that class; and no type and no doc comment says anything about it. -/
theorem assignment_never_contradicted (h : lookup (scope, name) (ofSources sources).bindings =
    some (.resolved cls .assignment)) :
    (sightings sources (scope, name) ≠ [] ∧
      ∀ r ∈ sightings sources (scope, name), r = .holds cls .assignment) ∧
    (∀ n s assign, (all sources)[n]? = some ⟨.assignments, s⟩ → s.Assigns assign →
      s.token.text = name → ((knownAt sources n).scopeOf s.varScope name == scope) = true →
      s.Creates assign (knownAt sources n) cls) ∧
    (∀ n s observer, (all sources)[n]? = some ⟨observer, s⟩ →
      observer = .typeHints ∨ observer = .annotations →
      ∀ fact ∈ observer.facts s (knownAt sources n),
        (knownAt sources n).sighting? (scope, name) fact = none) := by
  rw [ofSources_eq, lookup_learnAll] at h
  have hall := Binding.noteAll_eq_assignment_iff.1 h
  refine ⟨hall, fun n s assign hn hs hname hscope => ?_, fun n s observer hn ho fact hfact => ?_⟩
  · subst hname
    have hkey := Bool.and_eq_true_iff.2 ⟨hscope, beq_self_eq_true s.token.text⟩
    exact Facts.creates_of_assignment (hall.2 _ (assignment_mem_sightings hn hs hkey))
  · by_contra hr
    obtain ⟨r, hr⟩ := Option.ne_none_iff_exists'.1 hr
    obtain ⟨hmem, hdeclared⟩ := declaration_mem_sightings hn ho hfact hr
    rw [hall.2 r hmem] at hdeclared
    cases hdeclared

/-- A global variable that one file assigns outside functions, and another one within a function. -/
def shared : List Source :=
  [Source.read ⟨"/a.php"⟩ "<?php $app = new App;",
    Source.read ⟨"/b.php"⟩ "<?php function f() \x7b global $app; $app = &new App; \x7d"]

/-- Both assignments of the shared variable are evidence for it. -/
theorem assignment_never_contradicted_shared :
    lookup (.global, "$app") (ofSources shared).bindings = some (.resolved "App" .assignment) ∧
    (∀ r ∈ sightings shared (.global, "$app"), r = .holds "App" .assignment) ∧
    (sightings shared (.global, "$app")).length = 2 := by
  have hknown : lookup (.global, "$app") (ofSources shared).bindings =
      some (.resolved "App" .assignment) := by
    decide +kernel
  exact ⟨hknown, (assignment_never_contradicted hknown).1.2, by decide +kernel⟩

end Look

end PhpRename
