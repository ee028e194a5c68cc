import Mathlib.Data.List.Pairwise
import PhpRename.Proofs.Ordered
import PhpRename.Proofs.Symbols.Search

/-!
# The two searches in the class hierarchy

One search goes up from a class over its links, the other one goes down to a name over all
declarations. Both come to an end, on whatever cycles, and see the same chains of links.

* `Symbols.Link`: a class has a link to its recorded parent and to each of its interfaces.
* `Symbols.Reached`: facts in some order lead to the symbols; then no class is declared twice
  (`Reached.unique`).
* `isAncestor_iff`, `mem_descendants_iff`: what the two searches tell, in terms of links.
* `Reached.searches_agree`: both at once, and that both end.
-/

namespace PhpRename.Symbols

variable {db : Symbols} {c d a : String}

/-- A declaration of `c` gives it the parent or the interface `d`. -/
def Link (db : Symbols) (c d : String) : Prop :=
  ∃ decl ∈ db.classes, decl.name = c ∧ (decl.parent = some d ∨ d ∈ decl.interfaces)

/-- No class is declared twice. -/
def Unique (db : Symbols) : Prop :=
  db.classes.Pairwise fun c d => c.name ≠ d.name

/-- Facts in some order lead to the symbols, from nothing or from where everything has been
forgotten. -/
inductive Reached : Symbols → Prop
  | empty : Reached Symbols.empty
  | addClass {db : Symbols} (h : Reached db) (name : String) (parent : Option String)
      (file : Path) : Reached (db.addClass name parent file)
  | addInterfaces {db : Symbols} (h : Reached db) (name : String) (interfaces : List String) :
      Reached (db.addInterfaces name interfaces)
  | addGlobal {db : Symbols} (h : Reached db) (scope : VarScope) (name : String) :
      Reached (db.addGlobal scope name)
  | addType {db : Symbols} (h : Reached db) (scope : VarScope) (name cls : String)
      (source : Evidence) : Reached (db.addType scope name cls source)
  | addUntyped {db : Symbols} (h : Reached db) (scope : VarScope) (name : String) :
      Reached (db.addUntyped scope name)
  | addInclusion {db : Symbols} (h : Reached db) (source target : Path) :
      Reached (db.addInclusion source target)

/-! ## Declarations -/

theorem name_of_mem_putClass {cls decl : ClassDecl} {classes : List ClassDecl}
    (h : decl ∈ putClass cls classes) : decl.name = cls.name ∨ decl ∈ classes := by
  induction classes with
  | nil => exact .inl (congrArg _ (List.mem_singleton.1 h))
  | cons e classes ih =>
    rw [putClass] at h
    split at h
    · rcases List.mem_cons.1 h with rfl | h
      · exact .inl rfl
      · exact .inr (List.mem_cons_of_mem e h)
    · rcases List.mem_cons.1 h with rfl | h
      · exact .inr List.mem_cons_self
      · exact (ih h).imp_right (List.mem_cons_of_mem e)

theorem pairwise_putClass {classes : List ClassDecl}
    (h : classes.Pairwise fun c d => c.name ≠ d.name) (cls : ClassDecl) :
    (putClass cls classes).Pairwise fun c d => c.name ≠ d.name := by
  induction classes with
  | nil => exact List.pairwise_singleton ..
  | cons e classes ih =>
    obtain ⟨he, hrest⟩ := List.pairwise_cons.1 h
    rw [putClass]
    split
    · rename_i heq
      exact List.pairwise_cons.2 ⟨fun decl hdecl => heq ▸ he decl hdecl, hrest⟩
    · rename_i hne
      refine List.pairwise_cons.2 ⟨fun decl hdecl => ?_, ih hrest⟩
      rcases name_of_mem_putClass hdecl with hname | hmem
      · rw [hname]; exact hne
      · exact he decl hmem

theorem Unique.addClass (h : db.Unique) (name : String) (parent : Option String) (file : Path) :
    (db.addClass name parent file).Unique :=
  pairwise_putClass h _

theorem Unique.addInterfaces (h : db.Unique) (name : String) (interfaces : List String) :
    (db.addInterfaces name interfaces).Unique := by
  refine List.pairwise_map.2 (h.imp fun {c d} hcd => ?_)
  have hname : ∀ c : ClassDecl,
      (if c.name = name then { c with interfaces } else c).name = c.name := by
    intro c
    split <;> rfl
  rw [hname, hname]
  exact hcd

/-- **No class is declared twice**, whatever has been recorded. -/
theorem Reached.unique (h : db.Reached) : db.Unique := by
  induction h with
  | empty => exact .nil
  | addClass _ name parent file ih => exact ih.addClass name parent file
  | addInterfaces _ name interfaces ih => exact ih.addInterfaces name interfaces
  | addGlobal _ scope name ih =>
    rw [Symbols.addGlobal]
    split <;> exact ih
  | addType _ _ _ _ _ ih => exact ih
  | addUntyped _ _ _ ih => exact ih
  | addInclusion _ _ _ ih => exact ih

theorem class?_eq_some (h : db.class? c = some decl) : decl ∈ db.classes ∧ decl.name = c :=
  ⟨List.mem_of_find?_eq_some h, by simpa using List.find?_some h⟩

/-- What is known of a class is its one declaration. -/
theorem Unique.class?_eq_some_iff (h : db.Unique) {decl : ClassDecl} :
    db.class? c = some decl ↔ decl ∈ db.classes ∧ decl.name = c := by
  refine ⟨class?_eq_some, ?_⟩
  rintro ⟨hmem, rfl⟩
  obtain ⟨other, hother⟩ : ∃ other, db.class? decl.name = some other := by
    refine Option.isSome_iff_exists.1 (List.find?_isSome.2 ⟨decl, hmem, ?_⟩)
    simp
  obtain ⟨hmem', hname⟩ := class?_eq_some hother
  have hsymm : Std.Symm fun c d : ClassDecl => c.name ≠ d.name := ⟨fun _ _ => Ne.symm⟩
  rw [hother]
  by_contra hne
  exact h.forall hmem' hmem (fun heq => hne (congrArg some heq)) hname

theorem Link.isSome (h : db.Link c d) : (db.class? c).isSome = true := by
  obtain ⟨decl, hmem, hname, -⟩ := h
  exact List.find?_isSome.2 ⟨decl, hmem, by simpa using hname⟩

/-! ## Steps of the two searches -/

theorem link_of_mem_supers (h : d ∈ db.supers c) : db.Link c d := by
  unfold supers at h
  split at h
  · rename_i decl hc
    rw [List.mem_append, Option.mem_toList] at h
    obtain ⟨hmem, hname⟩ := class?_eq_some hc
    exact ⟨decl, hmem, hname, h⟩
  · cases h

theorem mem_supers (h : db.Unique) : d ∈ db.supers c ↔ db.Link c d := by
  refine ⟨link_of_mem_supers, ?_⟩
  rintro ⟨decl, hmem, hname, hd⟩
  rw [supers, h.class?_eq_some_iff.2 ⟨hmem, hname⟩, List.mem_append, Option.mem_toList]
  exact hd

theorem mem_children : c ∈ db.children d ↔ db.Link c d := by
  unfold children Link
  simp only [Ordered.mem_ofList, List.mem_map, List.mem_filter, Bool.or_eq_true,
    decide_eq_true_eq, List.contains_eq_mem]
  constructor
  · rintro ⟨decl, ⟨hmem, hd⟩, hname⟩
    exact ⟨decl, hmem, hname, hd⟩
  · rintro ⟨decl, hmem, hname, hd⟩
    exact ⟨decl, ⟨hmem, hd⟩, hname⟩

/-- There are more rounds than names of classes. -/
theorem missing_lt_rounds (db : Symbols) :
    missing (db.classes.map (·.name)) [] < db.rounds := by
  have hle := List.length_filter_le (fun x => !([] : List String).contains x)
    (db.classes.map (·.name))
  rw [List.length_map] at hle
  exact Nat.lt_succ_of_le hle

theorem mem_names_of_link (h : db.Link c d) : c ∈ db.classes.map (·.name) := by
  obtain ⟨decl, hmem, rfl, -⟩ := h
  exact List.mem_map_of_mem hmem

/-- Only a class leads up any further. -/
theorem finds_supers (db : Symbols) (c : String) :
    Finds db.supers [c] [] (closure db.supers db.rounds [c] []) := by
  refine finds_closure (fun _ y _ => ?_) (missing_lt_rounds db)
  by_cases hy : db.supers y = []
  · exact .inr hy
  · obtain ⟨z, hz⟩ := List.exists_mem_of_ne_nil _ hy
    exact .inl (mem_names_of_link (link_of_mem_supers hz))

/-- Down the links are classes only. -/
theorem finds_children (db : Symbols) (a : String) :
    Finds db.children [a] [] (closure db.children db.rounds [a] []) :=
  finds_closure (fun _ _ hy => .inl (mem_names_of_link (mem_children.1 hy))) (missing_lt_rounds db)

/-! ## What the searches tell -/

theorem isAncestor_iff_supers :
    db.isAncestor c a = true ↔ Relation.TransGen (fun x y => y ∈ db.supers x) c a := by
  rw [isAncestor, List.contains_eq_mem, decide_eq_true_eq, (finds_supers db c).mem_iff]

/-- Links lead to every ancestor, whatever is recorded. -/
theorem transGen_of_isAncestor (h : db.isAncestor c a = true) : Relation.TransGen db.Link c a :=
  Relation.TransGen.mono (fun _ _ => link_of_mem_supers) _ _ (isAncestor_iff_supers.1 h)

theorem isAncestor_iff (h : db.Unique) :
    db.isAncestor c a = true ↔ Relation.TransGen db.Link c a := by
  have hstep : (fun x y => y ∈ db.supers x) = db.Link := by
    funext x y
    exact propext (mem_supers h)
  rw [isAncestor_iff_supers, hstep]

theorem mem_descendants_iff : c ∈ db.descendants a ↔ c ≠ a ∧ Relation.TransGen db.Link c a := by
  have hstep : (fun x y => y ∈ db.children x) = Function.swap db.Link := by
    funext x y
    exact propext mem_children
  rw [descendants, Ordered.mem_ofList, List.mem_filter, decide_eq_true_eq,
    (finds_children db a).mem_iff, hstep, Relation.transGen_swap, and_comm]

/-- A chain of links begins with a class that is declared. -/
theorem isSome_of_transGen (h : Relation.TransGen db.Link c a) : (db.class? c).isSome = true := by
  obtain ⟨d, hlink, -⟩ := Relation.TransGen.head'_iff.1 h
  exact hlink.isSome

/-- **The two searches agree**, with each other and with the links that have been recorded, however
these run in circles or lead nowhere. A name is an ancestor of a class if and only if one link or more
lead there; the descendants of a name are the other classes from which links lead to it, each once
and in order. Both searches would end with this if nothing limited their rounds. -/
theorem Reached.searches_agree (h : db.Reached) (c a : String) :
    (db.isAncestor c a = true ↔ Relation.TransGen db.Link c a) ∧
    (c ∈ db.descendants a ↔
      (db.class? c).isSome = true ∧ c ≠ a ∧ Relation.TransGen db.Link c a) ∧
    Ordered.Ascending (db.descendants a) ∧
    (c ≠ a → (c ∈ db.descendants a ↔ db.isAncestor c a = true)) ∧
    (∃ found, Finds db.supers [c] [] found ∧ db.isAncestor c a = found.contains a) ∧
    ∃ found, Finds db.children [a] [] found ∧
      db.descendants a = Ordered.ofList (found.filter (· ≠ a)) := by
  have hup := isAncestor_iff (c := c) (a := a) h.unique
  refine ⟨hup, ?_, Ordered.ascending_ofList _, ?_, ⟨_, finds_supers db c, rfl⟩,
    ⟨_, finds_children db a, rfl⟩⟩
  · rw [mem_descendants_iff]
    exact ⟨fun hc => ⟨isSome_of_transGen hc.2, hc⟩, And.right⟩
  · intro hne
    rw [mem_descendants_iff, hup]
    exact and_iff_right hne

/-- Two classes extend each other, one of them declared for the second time; a class extends itself;
and an interface is not declared at all. -/
def entangled : Symbols :=
  ((((Symbols.empty.addClass "A" (some "Gone") ⟨"/a.php"⟩).addClass "B" (some "A") ⟨"/b.php"⟩).addClass
    "S" (some "S") ⟨"/s.php"⟩).addClass "A" (some "B") ⟨"/a2.php"⟩).addInterfaces "B" ["I", "S"]

theorem reached_entangled : entangled.Reached :=
  ((((Reached.empty.addClass ..).addClass ..).addClass ..).addClass ..).addInterfaces ..

theorem searches_agree_entangled :
    entangled.Reached ∧
    (entangled.isAncestor "A" "I" = true ↔ Relation.TransGen entangled.Link "A" "I") ∧
    ("A" ∈ entangled.descendants "I" ↔ (entangled.class? "A").isSome = true ∧ "A" ≠ "I" ∧
      Relation.TransGen entangled.Link "A" "I") ∧
    Ordered.Ascending (entangled.descendants "I") ∧
    ("A" ≠ "I" → ("A" ∈ entangled.descendants "I" ↔ entangled.isAncestor "A" "I" = true)) ∧
    (∃ found, Finds entangled.supers ["A"] [] found ∧
      entangled.isAncestor "A" "I" = found.contains "I") ∧
    ∃ found, Finds entangled.children ["I"] [] found ∧
      entangled.descendants "I" = Ordered.ofList (found.filter (· ≠ "I")) :=
  ⟨reached_entangled, reached_entangled.searches_agree "A" "I"⟩

example : entangled.descendants "I" = ["A", "B"] ∧ entangled.isAncestor "A" "A" = true := by cbv

end PhpRename.Symbols
