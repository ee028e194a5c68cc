import Mathlib.Data.List.Basic
import Mathlib.Data.List.Induction
import PhpRename.Facts.Basic

/-!
# What sightings leave known of a variable

A variable is sighted where something is said of its class: at a type hint, in a doc comment, where
it is assigned. What is known of it is a fold over its sightings. An assignment does not count where
there is a declaration, before it or after it; and only assignments of one class leave an assignment
known.

Two declarations that disagree cancel each other out: the next one stands as if it were the first.

* `Sighting.Agree`: the evidence agrees on a class.
* `Binding.noteAll_filter`: assignments do not count where there is a declaration.
* `Binding.noteAll_eq_assignment_iff`: when an assignment is what is known.
* `Binding.cls?_noteAll_iff`: a class is known when the evidence agrees, or when the declarations do
  that come after those which cancelled each other out.
-/

/-- A list repeats an element once or more. -/
theorem List.exists_eq_replicate_succ {α : Type*} {x : α} {xs : List α} :
    (∃ n, xs = replicate (n + 1) x) ↔ xs ≠ [] ∧ ∀ y ∈ xs, y = x := by
  constructor
  · rintro ⟨n, rfl⟩
    exact ⟨replicate_succ_ne_nil, fun y hy => eq_of_mem_replicate hy⟩
  · rintro ⟨hne, hall⟩
    refine ⟨xs.length - 1, eq_replicate_iff.2 ⟨?_, hall⟩⟩
    have hlength := length_pos_iff.2 hne
    omega

namespace PhpRename

/-- Something that is said of the class of a variable. -/
inductive Sighting where
  /-- The variable holds a class. -/
  | holds (cls : String) (source : Evidence)
  /-- The variable is assigned something other than a new object. -/
  | isAssigned
deriving DecidableEq, Repr

theorem Evidence.isDeclared_eq_false {source : Evidence} :
    source.isDeclared = false ↔ source = .assignment := by
  cases source <;> simp [isDeclared]

namespace Sighting

/-- The variable is declared: by a type hint or in a doc comment. -/
def isDeclared : Sighting → Bool
  | holds _ source => source.isDeclared
  | isAssigned => false

/-- The class that the variable is declared to hold. -/
def declared? : Sighting → Option String
  | holds cls source => if source.isDeclared then some cls else none
  | isAssigned => none

/-- The class of which the variable is assigned a new object. -/
def assigned? : Sighting → Option String
  | holds cls source => if source.isDeclared then none else some cls
  | isAssigned => none

/-- The sighting, as a fact about a variable. -/
def fact (scope : VarScope) (name : String) : Sighting → Fact
  | holds cls source => .holds scope name cls source
  | isAssigned => .isAssigned scope name

/-- The evidence agrees on a class: every declaration is of that class; or there is no declaration,
and whatever is assigned is a new object of that class. -/
def Agree (sightings : List Sighting) (cls : String) : Prop :=
  (sightings.filterMap declared? ≠ [] ∧ ∀ d ∈ sightings.filterMap declared?, d = cls) ∨
  (sightings.filterMap declared? = [] ∧ sightings.filterMap assigned? ≠ [] ∧
    isAssigned ∉ sightings ∧ ∀ c ∈ sightings.filterMap assigned?, c = cls)

instance (sightings : List Sighting) (cls : String) : Decidable (Agree sightings cls) :=
  inferInstanceAs (Decidable (_ ∨ _))

variable {r : Sighting} {sightings : List Sighting} {cls : String}

theorem declared?_eq_none : r.declared? = none ↔ r.isDeclared = false := by
  cases r with
  | isAssigned => exact ⟨fun _ => rfl, fun _ => rfl⟩
  | holds c s => simp [declared?, isDeclared]

theorem filterMap_declared?_eq_nil :
    sightings.filterMap declared? = [] ↔ ∀ r ∈ sightings, r.isDeclared = false := by
  rw [List.filterMap_eq_nil_iff]
  exact forall₂_congr fun r _ => declared?_eq_none

theorem filterMap_declared?_filter (sightings : List Sighting) :
    (sightings.filter isDeclared).filterMap declared? = sightings.filterMap declared? := by
  rw [List.filterMap_filter]
  refine List.filterMap_congr fun r _ => ?_
  cases hr : r.isDeclared with
  | true => rfl
  | false => exact (declared?_eq_none.2 hr).symm

/-- Without declarations, the evidence agrees when there is some and all of it is one assignment. -/
theorem agree_iff_of_undeclared (h : sightings.filterMap declared? = []) :
    Agree sightings cls ↔ sightings ≠ [] ∧ ∀ r ∈ sightings, r = holds cls .assignment := by
  constructor
  · rintro (⟨hne, -⟩ | ⟨-, hne, huntyped, hall⟩)
    · exact absurd h hne
    · refine ⟨?_, fun r hr => ?_⟩
      · rintro rfl
        exact hne rfl
      · cases r with
        | isAssigned => exact absurd hr huntyped
        | holds c s =>
          have hs : s.isDeclared = false := filterMap_declared?_eq_nil.1 h _ hr
          have hc : c ∈ sightings.filterMap assigned? :=
            List.mem_filterMap.2 ⟨_, hr, if_neg (Bool.eq_false_iff.1 hs)⟩
          rw [hall c hc, Evidence.isDeclared_eq_false.1 hs]
  · rintro ⟨hne, hall⟩
    obtain ⟨r, hr⟩ := List.exists_mem_of_ne_nil sightings hne
    have hcls : cls ∈ sightings.filterMap assigned? :=
      List.mem_filterMap.2 ⟨holds cls .assignment, hall r hr ▸ hr, rfl⟩
    refine .inr ⟨h, List.ne_nil_of_mem hcls, fun huntyped => ?_, fun c hc => ?_⟩
    · cases hall _ huntyped
    · obtain ⟨r, hr, hrc⟩ := List.mem_filterMap.1 hc
      rw [hall r hr] at hrc
      exact (Option.some.inj hrc).symm

end Sighting

namespace Binding

/-- What is known after one more sighting. -/
def note (known : Option Binding) : Sighting → Binding
  | .holds cls source => add known cls source
  | .isAssigned => blur known

/-- What is known after some more sightings. -/
def noteAll (known : Option Binding) (sightings : List Sighting) : Option Binding :=
  sightings.foldl (fun known r => some (note known r)) known

theorem noteAll_append (known : Option Binding) (before after : List Sighting) :
    noteAll known (before ++ after) = noteAll (noteAll known before) after :=
  List.foldl_append

variable {known : Option Binding} {a r : Sighting} {sightings : List Sighting} {cls : String}
  {source : Evidence}

@[simp] theorem noteAll_nil (known : Option Binding) : noteAll known [] = known := rfl

@[simp] theorem noteAll_cons (known : Option Binding) (r : Sighting) (sightings : List Sighting) :
    noteAll known (r :: sightings) = noteAll (some (note known r)) sightings := rfl

/-! ## One sighting -/

/-- What is known has been sighted: just now, or before. -/
theorem note_eq_resolved (h : note known r = resolved cls source) :
    r = .holds cls source ∨ known = some (resolved cls source) := by
  cases r with
  | isAssigned =>
    rcases known with _ | ⟨d, t⟩ | _
    · cases h
    · rw [note, blur] at h
      split at h
      · exact .inr (congrArg some h)
      · cases h
    · cases h
  | holds c s =>
    rcases known with _ | ⟨d, t⟩ | _
    · cases h; exact .inl rfl
    · rw [note, add] at h
      split at h
      · exact .inr (congrArg some h)
      split at h
      · cases h; exact .inl rfl
      split at h
      · exact .inr (congrArg some h)
      · cases h
    · rw [note, add] at h
      split at h
      · cases h; exact .inl rfl
      · cases h

/-- Where no declaration is known, the next one is all that is known. -/
theorem note_of_undeclared (hs : source.isDeclared = true)
    (hknown : ∀ d t, known = some (resolved d t) → t.isDeclared = false) :
    note known (.holds cls source) = resolved cls source := by
  rcases known with _ | ⟨d, t⟩ | _
  · rfl
  · have ht := hknown d t rfl
    simp [note, add, hs, ht]
  · simp [note, add, hs]

/-- A declaration that agrees with the one that is known changes nothing. -/
theorem note_of_agrees {t : Evidence} (ht : t.isDeclared = true) (hs : source.isDeclared = true) :
    note (some (resolved cls t)) (.holds cls source) = resolved cls t := by
  simp [note, add, ht, hs]

/-- **A declaration that disagrees with the one that is known** leaves nothing known. -/
theorem note_of_disagrees {d : String} {t : Evidence} (ht : t.isDeclared = true)
    (hs : source.isDeclared = true) (hne : d ≠ cls) :
    note (some (resolved d t)) (.holds cls source) = conflicted := by
  simp [note, add, ht, hs, hne]

/-- An assignment changes no declaration. -/
theorem note_declared {t : Evidence} (ht : t.isDeclared = true) (ha : a.isDeclared = false) :
    note (some (resolved cls t)) a = resolved cls t := by
  cases a with
  | isAssigned => simp [note, blur, ht]
  | holds d s =>
    have hs : s.isDeclared = false := ha
    simp [note, add, ht, hs]

/-- An assignment changes no conflict. -/
theorem note_conflicted (ha : a.isDeclared = false) : note (some conflicted) a = conflicted := by
  cases a with
  | isAssigned => rfl
  | holds d s =>
    have hs : s.isDeclared = false := ha
    simp [note, add, hs]

/-- Two assignments that disagree leave nothing known. -/
theorem note_of_reassigned {d : String} (hne : d ≠ cls) :
    note (some (resolved d .assignment)) (.holds cls .assignment) = conflicted := by
  simp [note, add, hne]

/-- **Where an assignment is known**, one of that class was sighted, and nothing else before. -/
theorem note_eq_assignment (h : note known r = resolved cls .assignment) :
    r = .holds cls .assignment ∧ (known = none ∨ known = some (resolved cls .assignment)) := by
  rcases note_eq_resolved h with rfl | rfl
  · refine ⟨rfl, ?_⟩
    rcases known with _ | ⟨d, t⟩ | _
    · exact .inl rfl
    · cases ht : t.isDeclared with
      | true =>
        rw [note_declared ht rfl] at h
        cases h
        cases ht
      | false =>
        obtain rfl := Evidence.isDeclared_eq_false.1 ht
        by_cases hd : d = cls
        · exact .inr (hd ▸ rfl)
        · rw [note_of_reassigned hd] at h
          cases h
    · rw [note_conflicted rfl] at h
      cases h
  · refine ⟨?_, .inr rfl⟩
    cases r with
    | isAssigned => cases h
    | holds c s =>
      cases hs : s.isDeclared with
      | true =>
        rw [note_of_undeclared hs (fun _ _ he => by cases he; rfl)] at h
        cases h
        cases hs
      | false =>
        obtain rfl := Evidence.isDeclared_eq_false.1 hs
        by_cases hc : cls = c
        · exact hc ▸ rfl
        · rw [note_of_reassigned hc] at h
          cases h

/-! ## Assignments beside declarations -/

/-- **An assignment before a declaration does not count.** -/
theorem note_of_before (ha : a.isDeclared = false) (hr : r.isDeclared = true)
    (known : Option Binding) : note (some (note known a)) r = note known r := by
  cases r with
  | isAssigned => cases hr
  | holds c s =>
    by_cases hdeclared : ∃ d t, known = some (resolved d t) ∧ t.isDeclared = true
    · obtain ⟨d, t, rfl, ht⟩ := hdeclared
      rw [note_declared ht ha]
    -- no declaration is known before the assignment, and so none is after it
    have hknown : ∀ d t, known = some (resolved d t) → t.isDeclared = false :=
      fun d t he => Bool.eq_false_iff.2 fun ht => hdeclared ⟨d, t, he, ht⟩
    have hafter : ∀ d t, some (note known a) = some (resolved d t) → t.isDeclared = false := by
      intro d t he
      rcases note_eq_resolved (Option.some.inj he) with rfl | hbefore
      · exact ha
      · exact hknown d t hbefore
    rw [note_of_undeclared hr hknown, note_of_undeclared hr hafter]

/-- **An assignment after a declaration does not count.** -/
theorem note_of_after (ha : a.isDeclared = false) (hr : r.isDeclared = true)
    (known : Option Binding) : note (some (note known r)) a = note known r := by
  cases hknown : note known r with
  | conflicted => exact note_conflicted ha
  | resolved d t =>
    refine note_declared ?_ ha
    by_contra ht
    rcases note_eq_resolved hknown with rfl | rfl
    · exact ht hr
    · -- an assignment was known, and gives way to the declaration
      cases r with
      | isAssigned => cases hr
      | holds c s =>
        rw [note_of_undeclared hr] at hknown
        · cases hknown; exact ht hr
        · intro d' t' he
          cases he
          exact Bool.eq_false_iff.2 ht

/-- Where only assignments come after it, a declaration is all that counts. -/
theorem noteAll_of_undeclared (hr : r.isDeclared = true) (known : Option Binding)
    (h : ∀ a ∈ sightings, a.isDeclared = false) :
    noteAll known (r :: sightings) = some (note known r) := by
  induction sightings with
  | nil => rfl
  | cons a sightings ih =>
    obtain ⟨ha, hsightings⟩ := List.forall_mem_cons.1 h
    have hrest := ih hsightings
    rw [noteAll_cons] at hrest
    rw [noteAll_cons, noteAll_cons, note_of_after ha hr, hrest]

/-- **Assignments do not count where there is a declaration**, wherever they stand. -/
theorem noteAll_filter (h : ∃ r ∈ sightings, r.isDeclared = true) (known : Option Binding) :
    noteAll known sightings = noteAll known (sightings.filter Sighting.isDeclared) := by
  induction sightings generalizing known with
  | nil => obtain ⟨r, hr, -⟩ := h; cases hr
  | cons x sightings ih =>
    by_cases hlater : ∃ r ∈ sightings, r.isDeclared = true
    · cases hx : x.isDeclared with
      | true => rw [List.filter_cons_of_pos hx, noteAll_cons, noteAll_cons, ih hlater]
      | false =>
        -- for the next declaration the assignment does not count
        rw [List.filter_cons_of_neg (by simp [hx]), noteAll_cons, ih hlater]
        cases hnext : sightings.filter Sighting.isDeclared with
        | nil =>
          obtain ⟨r, hr, hdeclared⟩ := hlater
          exact absurd hdeclared (List.filter_eq_nil_iff.1 hnext r hr)
        | cons r more =>
          have hr : r.isDeclared = true := List.of_mem_filter (hnext ▸ List.mem_cons_self)
          rw [noteAll_cons, noteAll_cons, note_of_before hx hr]
    · -- the declaration is this one, and only assignments come
      have hrest : ∀ a ∈ sightings, a.isDeclared = false :=
        fun a ha => Bool.eq_false_iff.2 fun hdeclared => hlater ⟨a, ha, hdeclared⟩
      have hx : x.isDeclared = true := by
        obtain ⟨r, hr, hdeclared⟩ := h
        rcases List.mem_cons.1 hr with rfl | hr
        · exact hdeclared
        · exact absurd ⟨r, hr, hdeclared⟩ hlater
      have hnone : sightings.filter Sighting.isDeclared = [] :=
        List.filter_eq_nil_iff.2 fun a ha => by simp [hrest a ha]
      rw [List.filter_cons_of_pos hx, hnone, noteAll_of_undeclared hx known hrest]
      rfl

/-! ## Assignments alone -/

/-- What is known in the end has been sighted, or was known in the beginning. -/
theorem noteAll_eq_resolved (h : noteAll known sightings = some (resolved cls source)) :
    .holds cls source ∈ sightings ∨ known = some (resolved cls source) := by
  induction sightings generalizing known with
  | nil => exact .inr h
  | cons r sightings ih =>
    rcases ih h with hmem | hnote
    · exact .inl (List.mem_cons_of_mem r hmem)
    · rcases note_eq_resolved (Option.some.inj hnote) with rfl | hknown
      · exact .inl List.mem_cons_self
      · exact .inr hknown

/-- Whatever leaves an assignment known is that assignment. -/
theorem forall_of_noteAll_eq_assignment
    (h : noteAll known sightings = some (resolved cls .assignment)) :
    (∀ r ∈ sightings, r = .holds cls .assignment) ∧
      (known = none ∨ known = some (resolved cls .assignment)) := by
  induction sightings generalizing known with
  | nil => exact ⟨nofun, .inr h⟩
  | cons r sightings ih =>
    obtain ⟨hsightings, hnote⟩ := ih h
    have hnote : note known r = resolved cls .assignment := by
      rcases hnote with hnote | hnote
      · cases hnote
      · exact Option.some.inj hnote
    obtain ⟨hr, hknown⟩ := note_eq_assignment hnote
    exact ⟨List.forall_mem_cons.2 ⟨hr, hsightings⟩, hknown⟩

/-- Assignments of the class that is known change nothing. -/
theorem noteAll_replicate (n : ℕ) :
    noteAll (some (resolved cls .assignment)) (List.replicate n (.holds cls .assignment)) =
      some (resolved cls .assignment) := by
  have hagain : note (some (resolved cls .assignment)) (.holds cls .assignment) =
      resolved cls .assignment := by
    simp [note, add]
  induction n with
  | zero => rfl
  | succ n ih => rw [List.replicate_succ, noteAll_cons, hagain, ih]

/-- **When an assignment is what is known**: when there are sightings, and each of them is that
assignment. -/
theorem noteAll_eq_assignment_iff : noteAll none sightings = some (resolved cls .assignment) ↔
    sightings ≠ [] ∧ ∀ r ∈ sightings, r = .holds cls .assignment := by
  constructor
  · intro h
    refine ⟨?_, (forall_of_noteAll_eq_assignment h).1⟩
    rintro rfl
    cases h
  · intro h
    obtain ⟨n, rfl⟩ := List.exists_eq_replicate_succ.2 h
    rw [List.replicate_succ, noteAll_cons]
    exact noteAll_replicate n

/-! ## Declarations alone -/

/-- The class that stands after one more declaration: a declaration that disagrees with the one that
stands takes it away, and takes nothing in its place. -/
def stand (standing : Option String) (d : String) : Option String :=
  match standing with
  | none => some d
  | some c => if c = d then some c else none

theorem cls?_note_declared (hr : r.isDeclared = true)
    (hknown : ∀ d t, known = some (resolved d t) → t.isDeclared = true) :
    ∃ d, r.declared? = some d ∧ (note known r).cls? = stand (known.bind cls?) d ∧
      ∀ e t, note known r = resolved e t → t.isDeclared = true := by
  cases r with
  | isAssigned => cases hr
  | holds d s =>
    have hs : s.isDeclared = true := hr
    have hsource : ∀ e t, note known (.holds d s) = resolved e t → t.isDeclared = true := by
      intro e t he
      rcases note_eq_resolved he with hd | hbefore
      · cases hd; exact hs
      · exact hknown e t hbefore
    refine ⟨d, if_pos hs, ?_, hsource⟩
    rcases known with _ | ⟨e, t⟩ | _
    · rfl
    · have ht := hknown e t rfl
      by_cases he : e = d
      · subst he
        rw [note_of_agrees ht hs]
        exact (if_pos rfl).symm
      · rw [note_of_disagrees ht hs he]
        exact (if_neg he).symm
    · rw [note_of_undeclared hs fun _ _ he => by cases he]
      rfl

/-- Of declarations alone, the class that is known is the one that stands. -/
theorem cls?_noteAll_declared (h : ∀ r ∈ sightings, r.isDeclared = true)
    (hknown : ∀ d t, known = some (resolved d t) → t.isDeclared = true) :
    (noteAll known sightings).bind cls? =
      (sightings.filterMap Sighting.declared?).foldl stand (known.bind cls?) := by
  induction sightings generalizing known with
  | nil => rfl
  | cons r sightings ih =>
    obtain ⟨hr, hsightings⟩ := List.forall_mem_cons.1 h
    obtain ⟨d, hd, hcls, hsource⟩ := cls?_note_declared hr hknown
    rw [noteAll_cons, List.filterMap_cons_some hd, List.foldl_cons, ← hcls]
    exact ih hsightings fun e t he => hsource e t (Option.some.inj he)

/-- Declarations that cancel each other out: one class, declared once or more, and then another
one; and so on. -/
inductive Cancelled : List String → Prop where
  | nil : Cancelled []
  | group {front : List String} (before : Cancelled front) {c d : String} (n : ℕ) (hne : c ≠ d) :
      Cancelled (front ++ List.replicate (n + 1) c ++ [d])

theorem foldl_stand_replicate (n : ℕ) (c : String) :
    (List.replicate (n + 1) c).foldl stand none = some c := by
  induction n with
  | zero => rfl
  | succ n ih =>
    rw [List.replicate_succ', List.foldl_append, ih]
    exact if_pos rfl

theorem Cancelled.foldl_stand {ds : List String} (h : Cancelled ds) :
    ds.foldl stand none = none := by
  induction h with
  | nil => rfl
  | group before n hne ih =>
    rw [List.foldl_append, List.foldl_append, ih, foldl_stand_replicate]
    exact if_neg hne

/-- Declarations cancel each other out, or the last ones after those that do agree. -/
theorem cancelled_or_agreeing (ds : List String) : Cancelled ds ∨
    ∃ c front n, Cancelled front ∧ ds = front ++ List.replicate (n + 1) c := by
  induction ds using List.reverseRecOn with
  | nil => exact .inl .nil
  | append_singleton ds d ih =>
    rcases ih with hds | ⟨c, front, n, hfront, rfl⟩
    · exact .inr ⟨d, ds, 0, hds, rfl⟩
    · by_cases hc : c = d
      · subst hc
        refine .inr ⟨c, front, n + 1, hfront, ?_⟩
        rw [List.append_assoc, ← List.replicate_succ']
      · exact .inl (hfront.group n hc)

/-- **The class that stands**: the one on which the declarations agree that come after those that
cancel each other out. -/
theorem foldl_stand_eq_some_iff {ds : List String} : ds.foldl stand none = some cls ↔
    ∃ front n, Cancelled front ∧ ds = front ++ List.replicate (n + 1) cls := by
  constructor
  · intro h
    rcases cancelled_or_agreeing ds with hds | ⟨c, front, n, hfront, rfl⟩
    · rw [hds.foldl_stand] at h
      cases h
    · rw [List.foldl_append, hfront.foldl_stand, foldl_stand_replicate] at h
      cases h
      exact ⟨front, n, hfront, rfl⟩
  · rintro ⟨front, n, hfront, rfl⟩
    rw [List.foldl_append, hfront.foldl_stand, foldl_stand_replicate]

/-! ## All the evidence -/

/-- **When a class is known** at which nothing was known before. -/
theorem cls?_noteAll_iff : (noteAll none sightings).bind cls? = some cls ↔
    Sighting.Agree sightings cls ∨ ∃ front n, front ≠ [] ∧ Cancelled front ∧
      sightings.filterMap Sighting.declared? = front ++ List.replicate (n + 1) cls := by
  by_cases hnone : sightings.filterMap Sighting.declared? = []
  · -- nothing cancels out, and what is known is an assignment
    have hempty : ¬ ∃ front n, front ≠ [] ∧ Cancelled front ∧
        sightings.filterMap Sighting.declared? = front ++ List.replicate (n + 1) cls := by
      rintro ⟨front, n, hne, -, he⟩
      exact hne (List.append_eq_nil_iff.1 (he.symm.trans hnone)).1
    rw [or_iff_left hempty, Sighting.agree_iff_of_undeclared hnone, ← noteAll_eq_assignment_iff]
    constructor
    · intro h
      obtain ⟨b, hb, hcls⟩ := Option.bind_eq_some_iff.1 h
      cases b with
      | conflicted => cases hcls
      | resolved c s =>
        cases hcls
        rcases noteAll_eq_resolved hb with hmem | hbefore
        · have hs : s.isDeclared = false := Sighting.filterMap_declared?_eq_nil.1 hnone _ hmem
          rw [hb, Evidence.isDeclared_eq_false.1 hs]
        · cases hbefore
    · intro h
      rw [h]
      rfl
  · -- assignments do not count, and the declarations agree from the first on or only at last
    have hdeclared : ∃ r ∈ sightings, r.isDeclared = true := by
      by_contra h
      exact hnone (Sighting.filterMap_declared?_eq_nil.2 fun r hr =>
        Bool.eq_false_iff.2 fun hr' => h ⟨r, hr, hr'⟩)
    rw [noteAll_filter hdeclared, cls?_noteAll_declared (fun r hr => List.of_mem_filter hr)
        (fun d t he => by cases he),
      Sighting.filterMap_declared?_filter, Option.bind_none, foldl_stand_eq_some_iff]
    constructor
    · rintro ⟨front, n, hfront, he⟩
      by_cases hne : front = []
      · subst hne
        exact .inl (.inl (List.exists_eq_replicate_succ.1 ⟨n, he⟩))
      · exact .inr ⟨front, n, hne, hfront, he⟩
    · rintro ((hagree | ⟨hnil, -⟩) | ⟨front, n, -, hfront, he⟩)
      · obtain ⟨n, he⟩ := List.exists_eq_replicate_succ.2 hagree
        exact ⟨[], n, .nil, he⟩
      · exact absurd hnil hnone
      · exact ⟨front, n, hfront, he⟩

end Binding

end PhpRename
