import PhpRename.Proofs.Symbols.Evidence
import PhpRename.Session.Run

/-!
# Reading passes as sequences of looks

A reading pass is a sequence of looks: at each site of each file, every observer looks in turn.
Every look learns facts by what is known before it, and `knownAt` is what is known before the look
of a number. What is known after the pass is what follows from all the facts, in order
(`Symbols.ofSources_eq`).

* `Look.learnt_of_getElem?`: what a look learns is among what the pass learns.
* `Look.sightings_of_getElem?`: so is the evidence that a look finds for a variable.
-/

namespace PhpRename

open Php

/-- What is known after a reading pass over files, if nothing is known before. -/
def Symbols.ofSources (sources : List Source) : Symbols :=
  sources.foldl (fun db source => (Findings.ofSource Session.observers db source).db) Symbols.empty

/-- An observer looks at a site. -/
structure Look where
  observer : Observer
  site : Site

namespace Look

/-- What is learnt by a look. -/
def facts (look : Look) (db : Symbols) : List Fact :=
  look.observer.facts look.site db

/-- The looks at a site. -/
def atSite (s : Site) : List Look :=
  Observer.all.map fun o => ⟨o, s⟩

/-- The looks of a pass over files. -/
def all (sources : List Source) : List Look :=
  (sources.flatMap Site.all).flatMap atSite

/-- What is known after some looks. -/
def known (db : Symbols) (looks : List Look) : Symbols :=
  looks.foldl (fun db look => db.learnAll (look.facts db)) db

/-- What is learnt by some looks, in order. -/
def learnt (db : Symbols) : List Look → List Fact
  | [] => []
  | look :: looks => look.facts db ++ learnt (db.learnAll (look.facts db)) looks

/-- What is known before the look of a number, in a pass over files. -/
def knownAt (sources : List Source) (n : ℕ) : Symbols :=
  known Symbols.empty ((all sources).take n)

/-- The evidence for a variable that a pass over files finds. -/
def sightings (sources : List Source) (key : Symbols.VarKey) : List Sighting :=
  Symbols.empty.sightings key (learnt Symbols.empty (all sources))

variable {db : Symbols} {looks : List Look} {look : Look} {n : ℕ} {sources : List Source}

theorem known_append (db : Symbols) (before after : List Look) :
    known db (before ++ after) = known (known db before) after :=
  List.foldl_append

/-- **What is known after some looks** is what follows from all that they learn. -/
theorem known_eq_learnAll (db : Symbols) (looks : List Look) :
    known db looks = db.learnAll (learnt db looks) := by
  induction looks generalizing db with
  | nil => rfl
  | cons look looks ih =>
    calc known db (look :: looks)
        = (db.learnAll (look.facts db)).learnAll (learnt (db.learnAll (look.facts db)) looks) :=
          ih (db.learnAll (look.facts db))
      _ = db.learnAll (learnt db (look :: looks)) := List.foldl_append.symm

theorem known_atSite (found : Findings) (s : Site) :
    (Findings.visit Session.observers found s).db = known found.db (atSite s) := by
  have hobservers : ∀ (os : List Observer) (found : Findings),
      (Findings.visit (os.map .observer) found s).db =
        known found.db (os.map fun o => ⟨o, s⟩) := by
    intro os
    induction os with
    | nil => exact fun _ => rfl
    | cons o os ih => exact fun found => ih (Listener.visit s found (.observer o))
  exact hobservers Observer.all found

theorem known_ofSource (db : Symbols) (source : Source) :
    (Findings.ofSource Session.observers db source).db =
      known db ((Site.all source).flatMap atSite) := by
  have hsites : ∀ (sites : List Site) (found : Findings),
      (sites.foldl (Findings.visit Session.observers) found).db =
        known found.db (sites.flatMap atSite) := by
    intro sites
    induction sites with
    | nil => exact fun _ => rfl
    | cons s sites ih =>
      intro found
      rw [List.foldl_cons, ih, known_atSite, List.flatMap_cons, known_append]
  exact hsites (Site.all source) ⟨db, []⟩

end Look

/-- **What is known after a reading pass** is what follows from all the facts, in order. -/
theorem Symbols.ofSources_eq (sources : List Source) :
    ofSources sources = empty.learnAll (Look.learnt empty (Look.all sources)) := by
  have hsources : ∀ (sources : List Source) (db : Symbols),
      sources.foldl (fun db source => (Findings.ofSource Session.observers db source).db) db =
        Look.known db (Look.all sources) := by
    intro sources
    induction sources with
    | nil => exact fun _ => rfl
    | cons source sources ih =>
      intro db
      rw [List.foldl_cons, ih, Look.known_ofSource, Look.all, Look.all, List.flatMap_cons,
        List.flatMap_append, Look.known_append]
  rw [ofSources, hsources, Look.known_eq_learnAll]

namespace Look

variable {db : Symbols} {looks : List Look} {look : Look} {n : ℕ} {sources : List Source}

/-- **What a look learns** is among what the looks learn. -/
theorem learnt_of_getElem? (h : looks[n]? = some look) (db : Symbols) :
    ∃ later, learnt db looks =
      learnt db (looks.take n) ++ (look.facts (known db (looks.take n)) ++ later) := by
  induction looks generalizing db n with
  | nil => cases h
  | cons first looks ih =>
    cases n with
    | zero =>
      obtain rfl : first = look := Option.some.inj h
      exact ⟨learnt (db.learnAll (first.facts db)) looks, rfl⟩
    | succ n =>
      obtain ⟨later, hlater⟩ := ih h (db.learnAll (first.facts db))
      refine ⟨later, ?_⟩
      rw [learnt, hlater, List.take_succ_cons, learnt, List.append_assoc]
      rfl

/-- Whatever the looks learn, one of them learns by what is known before it. -/
theorem exists_of_mem_learnt {fact : Fact} (h : fact ∈ learnt db looks) :
    ∃ (n : ℕ) (look : Look), looks[n]? = some look ∧
      fact ∈ look.facts (known db (looks.take n)) := by
  induction looks generalizing db with
  | nil => cases h
  | cons first looks ih =>
    rcases List.mem_append.1 h with h | h
    · exact ⟨0, first, rfl, h⟩
    · obtain ⟨n, look, hn, hfact⟩ := ih h
      exact ⟨n + 1, look, hn, hfact⟩

/-- **The evidence that a look finds** for a variable is among that of the pass. -/
theorem sightings_of_getElem? (h : (all sources)[n]? = some look) (key : Symbols.VarKey) :
    (knownAt sources n).sightings key (look.facts (knownAt sources n)) ⊆ sightings sources key := by
  obtain ⟨later, hlater⟩ := learnt_of_getElem? h Symbols.empty
  have hknown : knownAt sources n =
      Symbols.empty.learnAll (learnt Symbols.empty ((all sources).take n)) :=
    known_eq_learnAll Symbols.empty ((all sources).take n)
  rw [sightings, hlater, Symbols.sightings_append, ← hknown, Symbols.sightings_append]
  intro r hr
  exact List.mem_append_right _ (List.mem_append_left _ hr)

end Look

end PhpRename
