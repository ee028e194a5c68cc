import PhpRename.Proofs.Php.Site
import PhpRename.Proofs.Survey.Proposals

/-!
# What a first pass learns of inclusions

An inclusion that is known stays known, whatever else is learnt. So each include statement with a
target, in each file that a pass has read, is known after the pass.

* `List.foldl_of_mem`: what one step brings about and the others keep.
* `Symbols.Records`: an inclusion is known, by whatever spelling of its paths.
* `Survey.records_of_target?`: a pass of observers records every include statement.
-/

/-- What one step brings about, and further steps keep, holds in the end. -/
theorem List.foldl_of_mem {α β : Type*} {f : β → α → β} {P : β → Prop} {x : α} {xs : List α}
    (hx : x ∈ xs) (hstep : ∀ b, P (f b x)) (hkeep : ∀ b, P b → ∀ y ∈ xs, P (f b y)) (b : β) :
    P (xs.foldl f b) := by
  induction xs generalizing b with
  | nil => cases hx
  | cons y ys ih =>
    have hkeep' : ∀ b, P b → ∀ z ∈ ys, P (f b z) := fun b hb z hz =>
      hkeep b hb z (mem_cons_of_mem y hz)
    rcases mem_cons.1 hx with rfl | hx
    · exact foldlRecOn ys f (hstep b) hkeep'
    · exact ih hx hkeep' (f b y)

namespace PhpRename

open Php

variable {db : Symbols} {source target : Path}

instance : Std.ReflOrd Inclusion where
  compare_self := Ordering.then_eq_eq.2 ⟨Std.compare_self, Std.compare_self⟩

namespace Symbols

/-- It is known that the file `source` includes the file `target`. -/
def Records (db : Symbols) (source target : Path) : Prop :=
  ∃ i ∈ db.inclusions, (i.source == source) = true ∧ (i.target == target) = true

theorem Records.mono {db' : Symbols} (h : db.Records source target)
    (hsub : db.inclusions ⊆ db'.inclusions) : db'.Records source target := by
  obtain ⟨i, hi, hi'⟩ := h
  exact ⟨i, hsub hi, hi'⟩

/-- Facts take no inclusion back. -/
theorem inclusions_learn (db : Symbols) (fact : Fact) :
    db.inclusions ⊆ (db.learn fact).inclusions := by
  cases fact with
  | declares name parent interfaces file =>
    rw [learn]
    split <;> exact List.Subset.refl _
  | isGlobal scope name =>
    rw [learn, addGlobal]
    split <;> exact List.Subset.refl _
  | holds scope name cls source => exact List.Subset.refl _
  | isAssigned scope name => exact List.Subset.refl _
  | includes source target => exact fun i hi => Ordered.mem_insert_of_mem hi

theorem inclusions_learnAll (db : Symbols) (facts : List Fact) :
    db.inclusions ⊆ (db.learnAll facts).inclusions :=
  List.foldlRecOn (motive := fun db' : Symbols => db.inclusions ⊆ db'.inclusions) _ _
    (List.Subset.refl _) fun db' h fact _ => List.Subset.trans h (inclusions_learn db' fact)

/-- A fact about an inclusion is recorded. -/
theorem records_learnAll {facts : List Fact} (h : .includes source target ∈ facts) (db : Symbols) :
    (db.learnAll facts).Records source target := by
  refine List.foldl_of_mem (P := fun db : Symbols => db.Records source target) h (fun db => ?_)
    (fun db hdb fact _ => hdb.mono (inclusions_learn db fact)) db
  obtain ⟨i, hi, he⟩ := Ordered.exists_mem_insert (⟨source, target⟩ : Inclusion) db.inclusions
  obtain ⟨hsource, htarget⟩ := Ordering.then_eq_eq.1 he
  exact ⟨i, hi, Path.beq_iff.2 (Path.beq_iff.1 (Path.compare_eq_iff.1 hsource)).symm,
    Path.beq_iff.2 (Path.beq_iff.1 (Path.compare_eq_iff.1 htarget)).symm⟩

end Symbols

/-! ## Passes -/

namespace Survey

variable {listeners : List Listener} {s : Site} {src : Source}

theorem inclusions_visit (listeners : List Listener) (found : Findings) (s : Site) :
    found.db.inclusions ⊆ (Findings.visit listeners found s).db.inclusions := by
  refine List.foldlRecOn (motive := fun f : Findings => found.db.inclusions ⊆ f.db.inclusions) _ _
    (List.Subset.refl _) fun f h listener _ => ?_
  cases listener with
  | observer o => exact List.Subset.trans h (Symbols.inclusions_learnAll ..)
  | proposer p => exact h

theorem inclusions_look (listeners : List Listener) (keep : Bool) (t : Survey) (src : Source) :
    t.db.inclusions ⊆ (t.look listeners keep src).db.inclusions := by
  have hfound : t.db.inclusions ⊆ (Findings.ofSource listeners t.db src).db.inclusions :=
    List.foldlRecOn (motive := fun f : Findings => t.db.inclusions ⊆ f.db.inclusions) _ _
      (List.Subset.refl _) fun f h s _ => List.Subset.trans h (inclusions_visit listeners f s)
  rw [look]
  split <;> exact hfound

/-- A file that has been looked at by an observer of inclusions has all of them recorded. -/
theorem records_look (hlisteners : .observer .inclusions ∈ listeners) (hs : s ∈ Site.all src)
    {t : Target} (ht : s.target? = some t) (keep : Bool) (u : Survey) :
    (u.look listeners keep src).db.Records src.path (t.resolve src.path) := by
  have hpath : s.path = src.path := congrArg Source.path (Site.source_of_mem_all hs)
  have hfact : .includes src.path (t.resolve src.path) ∈ Observer.inclusions.facts s u.db := by
    rw [Observer.facts, Facts.included, ht, hpath]
    exact List.mem_cons_self
  have hvisit : ∀ found : Findings,
      (Findings.visit listeners found s).db.Records src.path (t.resolve src.path) := by
    intro found
    refine List.foldl_of_mem (P := fun f : Findings => f.db.Records src.path (t.resolve src.path))
      hlisteners (fun f => Symbols.records_learnAll hfact f.db) (fun f hf listener _ => ?_) found
    exact hf.mono (inclusions_visit [listener] f s)
  have hfound : (Findings.ofSource listeners u.db src).db.Records src.path (t.resolve src.path) :=
    List.foldl_of_mem (P := fun f : Findings => f.db.Records src.path (t.resolve src.path)) hs hvisit
      (fun f hf s _ => hf.mono (inclusions_visit listeners f s)) _
  rw [look]
  split <;> exact hfound

/-- What looking at a file brings about, and looking at others keeps, holds after a pass that has
not failed. -/
theorem lookAll_of_read {P : Survey → Prop} {keep : Bool} {d : Disk} {p : Path} {content : String}
    {paths : List Path} (hp : p ∈ paths) (hread : d.read p = .ok content)
    (hlook : ∀ u : Survey, P (u.look listeners keep (Source.read p content)))
    (hkeep : ∀ (u : Survey) src, P u → P (u.look listeners keep src)) {u : Survey}
    (hnone : (lookAll listeners keep d paths u).2 = none) : P (lookAll listeners keep d paths u).1 := by
  induction paths generalizing u with
  | nil => cases hp
  | cons q paths ih =>
    rw [lookAll] at hnone ⊢
    rcases List.mem_cons.1 hp with rfl | hp
    · rw [hread]
      dsimp only
      obtain ⟨sources, -, he⟩ :=
        lookAll_eq_foldl listeners keep d paths (u.look listeners keep (Source.read p content))
      rw [he]
      exact List.foldlRecOn _ _ (hlook u) fun u hu src _ => hkeep u src hu
    · split at hnone
      · exact ih hp hnone
      · exact ih hp hnone
      · cases hnone

/-- **A pass records every include statement** of the files that it has read. -/
theorem records_of_target? {keep : Bool} {d : Disk} {p : Path} {content : String} {paths : List Path}
    (hlisteners : .observer .inclusions ∈ listeners) (hp : p ∈ paths)
    (hread : d.read p = .ok content) (hs : s ∈ Site.all (Source.read p content)) {t : Target}
    (ht : s.target? = some t) {u : Survey} (hnone : (lookAll listeners keep d paths u).2 = none) :
    (lookAll listeners keep d paths u).1.db.Records p (t.resolve p) :=
  lookAll_of_read (P := fun u : Survey => u.db.Records p (t.resolve p)) hp hread
    (fun u => records_look hlisteners hs ht keep u)
    (fun u src hu => hu.mono (inclusions_look listeners keep u src)) hnone

end Survey

end PhpRename
