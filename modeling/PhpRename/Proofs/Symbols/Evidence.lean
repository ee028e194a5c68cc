import PhpRename.Proofs.Path.Parts
import PhpRename.Proofs.Symbols.Sighting

/-!
# What the symbols know of a variable

Facts about other variables change nothing of what is known of a variable. What is known of it is
what its own sightings leave (`lookup_learnAll`), in the order in which they are learnt. A variable
is known by the scope it lives in when it is sighted: a `global` statement moves it for what comes
after.

* `Symbols.sightings`: the sightings of one variable among some facts.
* `Symbols.binding?_sighted`: the same for the facts about a variable of one scope.
* `Symbols.assignments_invisible`: assignments do not count where there is a declaration.
* `Symbols.class_known_iff`: when the class of a variable is known.
-/

namespace PhpRename

namespace VarScope

/-- What a scope is known by: of the path of its file, the parts alone. -/
def identity : VarScope → Option (List Path.Part × Option String × String)
  | global => none
  | function file cls name => some (file.parts, cls, name)

theorem beq_iff {s t : VarScope} : (s == t) = true ↔ s.identity = t.identity := by
  cases s with
  | global =>
    cases t with
    | global => exact ⟨fun _ => rfl, fun _ => rfl⟩
    | function g d m => exact ⟨nofun, nofun⟩
  | function f c n =>
    cases t with
    | global => exact ⟨nofun, nofun⟩
    | function g d m =>
      change (f == g && decide (c = d) && decide (n = m)) = true ↔ _
      simp only [Bool.and_eq_true, decide_eq_true_eq, Path.beq_iff, identity, Option.some.injEq,
        Prod.mk.injEq, and_assoc]

end VarScope

namespace Symbols

theorem key_beq_iff {k l : VarKey} :
    (k == l) = true ↔ k.1.identity = l.1.identity ∧ k.2 = l.2 := by
  rw [← VarScope.beq_iff, ← beq_iff_eq (α := String)]
  exact Bool.and_eq_true_iff

instance : EquivBEq VarKey where
  rfl := key_beq_iff.2 ⟨rfl, rfl⟩
  symm h := by
    obtain ⟨hscope, hname⟩ := key_beq_iff.1 h
    exact key_beq_iff.2 ⟨hscope.symm, hname.symm⟩
  trans h h' := by
    obtain ⟨hscope, hname⟩ := key_beq_iff.1 h
    obtain ⟨hscope', hname'⟩ := key_beq_iff.1 h'
    exact key_beq_iff.2 ⟨hscope.trans hscope', hname.trans hname'⟩

/-! ## One variable among all -/

/-- What is put in for a variable is what is known of it, and nothing else changes. -/
theorem lookup_put (k key : VarKey) (b : Binding) (bindings : List (VarKey × Binding)) :
    lookup key (put k b bindings) = if k == key then some b else lookup key bindings := by
  induction bindings with
  | nil => rfl
  | cons entry bindings ih =>
    obtain ⟨l, c⟩ := entry
    cases hk : l == k with
    | true =>
      -- the entry keeps its own spelling of the variable
      have hkey : (l == key) = (k == key) := BEq.congr_left hk
      rw [put, hk, if_pos rfl, lookup, lookup, hkey]
      split <;> rfl
    | false =>
      rw [put, hk, if_neg Bool.false_ne_true, lookup, ih, lookup]
      cases hl : l == key with
      | false => rw [if_neg Bool.false_ne_true, if_neg Bool.false_ne_true]
      | true =>
        have hkey : ¬ (k == key) = true := fun hkey =>
          Bool.false_ne_true (hk.symm.trans (BEq.trans hl (BEq.symm hkey)))
        rw [if_pos rfl, if_pos rfl, if_neg hkey]

/-- A variable is looked up by any of the spellings of its scope. -/
theorem lookup_congr {k l : VarKey} (h : (k == l) = true) (bindings : List (VarKey × Binding)) :
    lookup k bindings = lookup l bindings := by
  induction bindings with
  | nil => rfl
  | cons entry bindings ih =>
    obtain ⟨m, b⟩ := entry
    have hm : (m == k) = (m == l) := BEq.congr_right h
    rw [lookup, lookup, hm, ih]

variable {db : Symbols} {scope : VarScope} {name cls : String}

/-- The sighting of a variable that a fact is, when it is learnt. -/
def sighting? (db : Symbols) (key : VarKey) : Fact → Option Sighting
  | .holds scope name cls source =>
    if (db.scopeOf scope name, name) == key then some (.holds cls source) else none
  | .isAssigned scope name =>
    if (db.scopeOf scope name, name) == key then some .isAssigned else none
  | _ => none

/-- The sightings of a variable among some facts, in order. -/
def sightings (db : Symbols) (key : VarKey) : List Fact → List Sighting
  | [] => []
  | fact :: facts => (db.sighting? key fact).toList ++ (db.learn fact).sightings key facts

/-- A fact changes what is known of the variable that it is about. -/
theorem lookup_learn (db : Symbols) (key : VarKey) (fact : Fact) :
    lookup key (db.learn fact).bindings =
      Binding.noteAll (lookup key db.bindings) (db.sighting? key fact).toList := by
  have hupdate : ∀ scope name (r : Sighting),
      lookup key (db.update scope name (Binding.note · r)).bindings =
        Binding.noteAll (lookup key db.bindings)
          (if (db.scopeOf scope name, name) == key then some r else none).toList := by
    intro scope name r
    rw [update, lookup_put]
    split
    · next hkey =>
      rw [lookup_congr hkey]
      rfl
    · rfl
  cases fact with
  | declares name parent interfaces file =>
    rw [learn]
    split <;> rfl
  | isGlobal scope name =>
    rw [learn, addGlobal]
    split <;> rfl
  | holds scope name cls source => exact hupdate scope name (.holds cls source)
  | isAssigned scope name => exact hupdate scope name .isAssigned
  | includes source target => rfl

/-- **What is known of a variable** is what its sightings leave. -/
theorem lookup_learnAll (db : Symbols) (key : VarKey) (facts : List Fact) :
    lookup key (db.learnAll facts).bindings =
      Binding.noteAll (lookup key db.bindings) (db.sightings key facts) := by
  induction facts generalizing db with
  | nil => rfl
  | cons fact facts ih =>
    calc lookup key (db.learnAll (fact :: facts)).bindings
        = Binding.noteAll (lookup key (db.learn fact).bindings)
            ((db.learn fact).sightings key facts) := ih (db.learn fact)
      _ = Binding.noteAll (lookup key db.bindings) (db.sightings key (fact :: facts)) := by
          rw [lookup_learn, sightings, Binding.noteAll_append]

theorem sightings_append (db : Symbols) (key : VarKey) (before after : List Fact) :
    db.sightings key (before ++ after) =
      db.sightings key before ++ (db.learnAll before).sightings key after := by
  induction before generalizing db with
  | nil => rfl
  | cons fact before ih =>
    rw [List.cons_append, sightings, ih, sightings, List.append_assoc]
    rfl

/-- The class that a variable is sighted to hold is that of a fact. -/
theorem exists_holds {key : VarKey} {source : Evidence} {facts : List Fact}
    (h : .holds cls source ∈ db.sightings key facts) :
    ∃ scope name, .holds scope name cls source ∈ facts := by
  induction facts generalizing db with
  | nil => cases h
  | cons fact facts ih =>
    rcases List.mem_append.1 h with h | h
    · have hsighting := Option.mem_toList.1 h
      cases fact with
      | holds scope name cls' source' =>
        rw [sighting?] at hsighting
        split at hsighting
        · cases hsighting
          exact ⟨scope, name, List.mem_cons_self⟩
        · cases hsighting
      | isAssigned scope name =>
        rw [sighting?] at hsighting
        split at hsighting <;> cases hsighting
      | declares name parent interfaces file => cases hsighting
      | isGlobal scope name => cases hsighting
      | includes source target => cases hsighting
    · obtain ⟨scope, name, hmem⟩ := ih h
      exact ⟨scope, name, List.mem_cons_of_mem fact hmem⟩

/-! ## Without `global` statements -/

/-- Only a `global` statement makes a variable global. -/
theorem globals_learnAll {facts : List Fact}
    (h : ∀ fact ∈ facts, ∀ scope name, fact ≠ .isGlobal scope name) (db : Symbols) :
    (db.learnAll facts).globals = db.globals := by
  induction facts generalizing db with
  | nil => rfl
  | cons fact facts ih =>
    obtain ⟨hfact, hfacts⟩ := List.forall_mem_cons.1 h
    have hlearn : (db.learn fact).globals = db.globals := by
      cases fact with
      | declares name parent interfaces file =>
        rw [learn]
        split <;> rfl
      | isGlobal scope name => exact absurd rfl (hfact scope name)
      | holds scope name cls source => rfl
      | isAssigned scope name => rfl
      | includes source target => rfl
    exact (ih hfacts (db.learn fact)).trans hlearn

theorem scopeOf_congr {db' : Symbols} (h : db'.globals = db.globals) (scope : VarScope)
    (name : String) : db'.scopeOf scope name = db.scopeOf scope name := by
  rw [scopeOf, scopeOf, isGlobal, isGlobal, h]

theorem sighting?_congr {db' : Symbols} (h : db'.globals = db.globals) (key : VarKey)
    (fact : Fact) : db'.sighting? key fact = db.sighting? key fact := by
  cases fact <;> simp only [sighting?, scopeOf_congr h]

/-- Without `global` statements, the sightings of a variable are read off one fact at a time. -/
theorem sightings_eq_filterMap {facts : List Fact}
    (h : ∀ fact ∈ facts, ∀ scope name, fact ≠ .isGlobal scope name) (db : Symbols) (key : VarKey) :
    db.sightings key facts = facts.filterMap (db.sighting? key) := by
  induction facts generalizing db with
  | nil => rfl
  | cons fact facts ih =>
    obtain ⟨hfact, hfacts⟩ := List.forall_mem_cons.1 h
    have hglobals : (db.learn fact).globals = db.globals :=
      globals_learnAll (List.forall_mem_singleton.2 hfact) db
    -- no variable moves to another scope on the way
    have hnext : (db.learn fact).sighting? key = db.sighting? key :=
      funext fun next => sighting?_congr hglobals key next
    rw [sightings, ih hfacts, hnext, List.filterMap_cons]
    cases db.sighting? key fact <;> rfl

/-! ## One variable of one scope -/

theorem fact_ne_isGlobal (r : Sighting) (scope : VarScope) (name : String) (t : VarScope)
    (m : String) : r.fact scope name ≠ .isGlobal t m := by
  cases r <;> exact nofun

/-- The fact that a variable is sighted is a sighting of that variable. -/
theorem sighting?_fact {db : Symbols} {key : VarKey} {scope : VarScope} {name : String}
    (h : ((db.scopeOf scope name, name) == key) = true) (r : Sighting) :
    db.sighting? key (r.fact scope name) = some r := by
  cases r with
  | holds cls source => exact if_pos h
  | isAssigned => exact if_pos h

theorem sighted_ne_isGlobal (scope : VarScope) (name : String) (rs : List Sighting) :
    ∀ fact ∈ rs.map (Sighting.fact scope name), ∀ t m, fact ≠ .isGlobal t m :=
  List.forall_mem_map.2 fun r _ => fact_ne_isGlobal r scope name

theorem sightings_sighted (db : Symbols) (scope : VarScope) (name : String) (rs : List Sighting) :
    db.sightings (db.scopeOf scope name, name) (rs.map (Sighting.fact scope name)) = rs := by
  rw [sightings_eq_filterMap (sighted_ne_isGlobal scope name rs), List.filterMap_map]
  exact (List.filterMap_congr fun r _ => sighting?_fact BEq.rfl r).trans List.filterMap_some

/-- What is known of a variable of one scope after some sightings. -/
theorem binding?_sighted (db : Symbols) (scope : VarScope) (name : String) (rs : List Sighting) :
    (db.learnAll (rs.map (Sighting.fact scope name))).binding? scope name =
      Binding.noteAll (db.binding? scope name) rs := by
  have hglobals := globals_learnAll (sighted_ne_isGlobal scope name rs) db
  rw [binding?, scopeOf_congr hglobals, lookup_learnAll, sightings_sighted, binding?]

/-- **Assignments are invisible where there is a declaration.** Let the class of one variable of
one scope be declared at least once. Then what is known of it in the end is what the declarations
alone leave, wherever the assignments stand: the class and where it comes from, or a conflict. -/
theorem assignments_invisible (db : Symbols) (scope : VarScope) (name : String) {rs : List Sighting}
    (h : ∃ r ∈ rs, r.isDeclared = true) :
    (db.learnAll (rs.map (Sighting.fact scope name))).binding? scope name =
      (db.learnAll ((rs.filter Sighting.isDeclared).map (Sighting.fact scope name))).binding?
        scope name := by
  rw [binding?_sighted, binding?_sighted]
  exact Binding.noteAll_filter h (db.binding? scope name)

/-- Assignments stand before, between and after two declarations that disagree. -/
theorem assignments_invisible_around :
    let rs : List Sighting := [.isAssigned, .holds "Widget" .typeHint, .holds "Gadget" .assignment,
      .holds "Gadget" .docComment, .holds "Widget" .assignment]
    (∃ r ∈ rs, r.isDeclared = true) ∧
    (empty.learnAll (rs.map (Sighting.fact .global "$w"))).binding? .global "$w" =
      (empty.learnAll ((rs.filter Sighting.isDeclared).map (Sighting.fact .global "$w"))).binding?
        .global "$w" ∧
    (empty.learnAll (rs.map (Sighting.fact .global "$w"))).binding? .global "$w" =
      some .conflicted := by
  intro rs
  have hdeclared : ∃ r ∈ rs, r.isDeclared = true := by decide
  exact ⟨hdeclared, assignments_invisible empty .global "$w" hdeclared, by decide⟩

/-- **When the class of a variable is known.** Of one variable of one scope let nothing be known
before. Then its class is known in the end where the evidence agrees on it, and in one more case:
where declarations that disagree have cancelled each other out, and the declarations that come after
them agree. -/
theorem class_known_iff {db : Symbols} {scope : VarScope} {name cls : String}
    {rs : List Sighting} (h : db.binding? scope name = none) :
    (db.learnAll (rs.map (Sighting.fact scope name))).typeOf? scope name = some cls ↔
      Sighting.Agree rs cls ∨
      ∃ front n, front ≠ [] ∧ Binding.Cancelled front ∧
        rs.filterMap Sighting.declared? = front ++ List.replicate (n + 1) cls := by
  rw [typeOf?, binding?_sighted, h]
  exact Binding.cls?_noteAll_iff

/-- The evidence agrees on the class that is annotated, among assignments. -/
theorem class_known_iff_annotated :
    let rs : List Sighting :=
      [.holds "Gadget" .assignment, .holds "Widget" .docComment, .isAssigned]
    empty.binding? .global "$w" = none ∧
    ((empty.learnAll (rs.map (Sighting.fact .global "$w"))).typeOf? .global "$w" = some "Widget" ↔
      Sighting.Agree rs "Widget" ∨
      ∃ front n, front ≠ [] ∧ Binding.Cancelled front ∧
        rs.filterMap Sighting.declared? = front ++ List.replicate (n + 1) "Widget") ∧
    (empty.learnAll (rs.map (Sighting.fact .global "$w"))).typeOf? .global "$w" =
      some "Widget" := by
  intro rs
  have hunknown : empty.binding? .global "$w" = none := rfl
  have hiff := @class_known_iff empty .global "$w" "Widget" rs hunknown
  have hagree : Sighting.Agree rs "Widget" := by decide
  exact ⟨hunknown, hiff, hiff.2 (.inl hagree)⟩

/-- **Evidence that disagrees does not leave a class unknown for good.** After two declarations that
disagree, a third one stands as if it were the only one: as in three `catch` blocks with one
variable. -/
theorem class_known_despite_clash :
    let rs : List Sighting :=
      [.holds "Widget" .typeHint, .holds "Gadget" .typeHint, .holds "Widget" .typeHint]
    ¬ ((empty.learnAll (rs.map (Sighting.fact .global "$e"))).typeOf? .global "$e" = some "Widget" ↔
      Sighting.Agree rs "Widget") := by
  decide

end Symbols

end PhpRename
