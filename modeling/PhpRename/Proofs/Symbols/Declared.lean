import PhpRename.Facts.Basic

/-!
# What the symbols know of a class

What is known of a class is its last declaration, and nothing else that is learnt changes it.

* `Fact.declaration?`: the declaration of a class that a fact is.
* `Symbols.class?_learn`, `Symbols.class?_learnAll`: what is known once facts are learnt.
-/

namespace PhpRename

/-- The declaration of the class of a name that the fact is. -/
def Fact.declaration? (name : String) : Fact → Option ClassDecl
  | .declares n parent interfaces file =>
    if n = name then some ⟨n, parent, interfaces, file⟩ else none
  | _ => none

theorem Fact.declaration?_eq_some {name : String} {fact : Fact} {c : ClassDecl}
    (h : fact.declaration? name = some c) :
    c.name = name ∧ fact = .declares c.name c.parent c.interfaces c.file := by
  cases fact with
  | declares n parent interfaces file =>
    rw [declaration?] at h
    split at h
    · rename_i hn
      cases h
      exact ⟨hn, rfl⟩
    · cases h
  | isGlobal scope name => cases h
  | holds scope name cls source => cases h
  | isAssigned scope name => cases h
  | includes source target => cases h

namespace Symbols

/-- What is put in for a class is found under its name, and nothing else changes. -/
theorem find?_putClass (c : ClassDecl) (name : String) (classes : List ClassDecl) :
    (putClass c classes).find? (·.name = name) =
      if c.name = name then some c else classes.find? (·.name = name) := by
  induction classes with
  | nil =>
    by_cases hc : c.name = name
    · simp [putClass, hc]
    · simp [putClass, hc]
  | cons d classes ih =>
    rw [putClass]
    by_cases hd : d.name = c.name
    · rw [if_pos hd]
      by_cases hc : c.name = name
      · simp [hc]
      · simp [hd, hc]
    · rw [if_neg hd, List.find?_cons, List.find?_cons, ih]
      by_cases hdn : d.name = name
      · -- the declaration in front is not the one that is put in
        have hc : c.name ≠ name := fun hc => hd (hdn.trans hc.symm)
        simp [hdn, hc]
      · simp [hdn]

theorem class?_addClass (db : Symbols) (n name : String) (parent : Option String) (file : Path) :
    (db.addClass n parent file).class? name =
      if n = name then some ⟨n, parent, [], file⟩ else db.class? name :=
  find?_putClass ⟨n, parent, [], file⟩ name db.classes

theorem class?_addInterfaces (db : Symbols) (n name : String) (interfaces : List String) :
    (db.addInterfaces n interfaces).class? name =
      (db.class? name).map fun c => if c.name = n then { c with interfaces } else c := by
  have hname : ∀ c : ClassDecl, (if c.name = n then { c with interfaces } else c).name = c.name := by
    intro c
    split <;> rfl
  rw [class?, addInterfaces, List.find?_map]
  simp only [Function.comp_def, hname]
  rfl

/-- A declaration of a class is what is known of it, and no other fact changes that. -/
theorem class?_learn (db : Symbols) (name : String) (fact : Fact) :
    (db.learn fact).class? name = (fact.declaration? name).or (db.class? name) := by
  cases fact with
  | declares n parent interfaces file =>
    rw [learn, Fact.declaration?]
    by_cases hn : n = name
    · by_cases hinterfaces : interfaces = []
      · simp [hinterfaces, class?_addClass, hn]
      · simp [hinterfaces, class?_addInterfaces, class?_addClass, hn]
    · by_cases hinterfaces : interfaces = []
      · simp [hinterfaces, class?_addClass, hn]
      · -- the interfaces are those of the class that has been declared
        have hother : ∀ c, db.class? name = some c → c.name ≠ n := by
          intro c hc he
          have hname : c.name = name := by simpa using List.find?_some hc
          exact hn (he.symm.trans hname)
        simp only [hinterfaces, if_false, class?_addInterfaces, class?_addClass, hn, Option.none_or]
        cases hc : db.class? name with
        | none => rfl
        | some c => simp [hother c hc]
  | isGlobal scope name =>
    rw [learn, addGlobal]
    split <;> rfl
  | holds scope name cls source => rfl
  | isAssigned scope name => rfl
  | includes source target => rfl

/-- **What is known of a class** is its last declaration. -/
theorem class?_learnAll (db : Symbols) (name : String) (facts : List Fact) :
    (db.learnAll facts).class? name =
      (facts.filterMap (Fact.declaration? name)).getLast?.or (db.class? name) := by
  induction facts generalizing db with
  | nil => rfl
  | cons fact facts ih =>
    calc (db.learnAll (fact :: facts)).class? name
        = (facts.filterMap (Fact.declaration? name)).getLast?.or ((db.learn fact).class? name) :=
          ih (db.learn fact)
      _ = ((fact :: facts).filterMap (Fact.declaration? name)).getLast?.or (db.class? name) := by
          rw [class?_learn, List.filterMap_cons]
          cases hdecl : fact.declaration? name with
          | none => rfl
          | some c =>
            rw [List.getLast?_cons]
            cases (facts.filterMap (Fact.declaration? name)).getLast? <;> rfl

end Symbols

end PhpRename
