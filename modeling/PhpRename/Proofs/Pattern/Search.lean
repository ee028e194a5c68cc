import Mathlib.Data.List.Basic
import PhpRename.Pattern.Search

/-!
# Searches find the same again

A search does not try a state twice at one place. This is right within one search from one place. It
goes on from place to place, though, with what has been tried at earlier ones; and the search for the
next match begins with nothing tried. So it has to be shown that what has been tried in vain does not
change what is found.

What a search finds, apart from the groups, is described by `Finds`: the ways are tried in their
order, with a set of keys for what has been tried.

* `Finds.of_settled`: what has been tried in vain may be added to what has been tried.
* `settled_of_run`: a search that fails has tried its states in vain. It has steps enough for that.
* `find?_spec`: a match that is found is the one that is preferred where it begins.
* `findFrom_pairwise`: each match begins behind the one before it, and not before that one's end.
-/

namespace PhpRename.Pattern.Search

/-- Where the search remembers that a state has been tried at a place. -/
def keyOf (text : Array Char) (k : Nat × Nat) : Nat :=
  k.1 * (text.size + 1) + k.2

/-- The states that are to be visited, with the places. -/
def visitsOf (jobs : List Job) : List (Nat × Nat) :=
  jobs.filterMap fun job => match job with
    | .visit i place => some (i, place)
    | .restore _ _ => none

/-- Where a state leads from a place. -/
def follow (text : Array Char) (state : State) (place : Nat) : List (Nat × Nat) :=
  visitsOf (work text state place #[]).1

/-- A visit that a search passes over: it has been tried, or there is no such state. -/
def Passed (states : Array State) (text : Array Char) (T : Nat → Prop) (k : Nat × Nat) : Prop :=
  T (keyOf text k) ∨ states[k.1]? = none

/-- A search with `visits` to make comes to match up to `stop`; `T` are the keys of what has been
tried. -/
inductive Finds (states : Array State) (text : Array Char) :
    (Nat → Prop) → List (Nat × Nat) → Nat → Prop
  | pass {T k rest stop} (hpass : Passed states text T k) (h : Finds states text T rest stop) :
      Finds states text T (k :: rest) stop
  | hit {T k rest} (hT : ¬ T (keyOf text k)) (hk : states[k.1]? = some .done) :
      Finds states text T (k :: rest) k.2
  | expand {T k rest stop state} (hT : ¬ T (keyOf text k)) (hk : states[k.1]? = some state)
      (hne : state ≠ .done)
      (h : Finds states text (fun key => T key ∨ key = keyOf text k)
        (follow text state k.2 ++ rest) stop) : Finds states text T (k :: rest) stop

/-- What has been tried at places of the text has been tried in vain, but for what is pending. -/
def Settled (states : Array State) (text : Array Char) (D : Nat → Prop)
    (pending : List (Nat × Nat)) : Prop :=
  ∀ k : Nat × Nat, k.2 ≤ text.size → D (keyOf text k) → ∀ state, states[k.1]? = some state →
    state ≠ .done ∧ ∀ k' ∈ follow text state k.2, Passed states text D k' ∨ k' ∈ pending

variable {states : Array State} {text : Array Char} {T D : Nat → Prop} {k : Nat × Nat}
variable {visits front rest : List (Nat × Nat)} {state : State} {place stop n : Nat}

@[simp] theorem visitsOf_visit (i place : Nat) (jobs : List Job) :
    visitsOf (.visit i place :: jobs) = (i, place) :: visitsOf jobs := rfl

@[simp] theorem visitsOf_restore (slot : Nat) (value : Option Nat) (jobs : List Job) :
    visitsOf (.restore slot value :: jobs) = visitsOf jobs := rfl

theorem visitsOf_append (jobs more : List Job) :
    visitsOf (more ++ jobs) = visitsOf more ++ visitsOf jobs :=
  List.filterMap_append

theorem visitsOf_work (text : Array Char) (state : State) (place : Nat) (slots : Array (Option Nat)) :
    visitsOf (work text state place slots).1 = follow text state place := by
  unfold follow
  cases state with
  | char cls next => simp only [work]; split <;> [split; skip] <;> rfl
  | look l next => simp only [work]; split <;> split <;> rfl
  | keep slot next => rfl
  | fork first second => rfl
  | done => rfl

/-- The places that a state leads to are no earlier, and in the text. -/
theorem follow_bounds (hplace : place ≤ text.size) (h : k ∈ follow text state place) :
    place ≤ k.2 ∧ k.2 ≤ text.size := by
  cases state with
  | char cls next =>
    simp only [follow, work] at h
    split at h
    · rename_i c hc
      have hlt := (Array.getElem?_eq_some_iff.1 hc).1
      split at h
      · obtain rfl := List.mem_singleton.1 h
        exact ⟨Nat.le_succ _, hlt⟩
      · cases h
    · cases h
  | look l next =>
    simp only [follow, work] at h
    generalize (if place = 0 then none else text[place - 1]?) = before at h
    split at h
    · obtain rfl := List.mem_singleton.1 h
      exact ⟨Nat.le_refl _, hplace⟩
    · cases h
  | keep slot next =>
    obtain rfl := List.mem_singleton.1 h
    exact ⟨Nat.le_refl _, hplace⟩
  | fork first second =>
    rcases List.mem_pair.1 h with rfl | rfl <;> exact ⟨Nat.le_refl _, hplace⟩
  | done => cases h

namespace Finds

/-- A search finds one thing only. -/
theorem unique {a b : Nat} (h : Finds states text T visits a) (h' : Finds states text T visits b) :
    a = b := by
  induction h with
  | pass hpass _ ih =>
    cases h' with
    | pass _ h' => exact ih h'
    | hit hT hk => exact absurd (hpass.resolve_left hT) (by rw [hk]; exact nofun)
    | expand hT hk => exact absurd (hpass.resolve_left hT) (by rw [hk]; exact nofun)
  | hit hT hk =>
    cases h' with
    | pass hpass => exact absurd (hpass.resolve_left hT) (by rw [hk]; exact nofun)
    | hit => rfl
    | expand _ hk' hne => exact absurd (Option.some.inj (hk'.symm.trans hk)) hne
  | expand hT hk hne _ ih =>
    cases h' with
    | pass hpass => exact absurd (hpass.resolve_left hT) (by rw [hk]; exact nofun)
    | hit _ hk' => exact absurd (Option.some.inj (hk.symm.trans hk')) hne
    | expand _ hk' _ h' =>
      obtain rfl := Option.some.inj (hk.symm.trans hk')
      exact ih h'

/-- Visits that are passed over may be left out. -/
theorem of_append (hpass : ∀ k ∈ front, Passed states text T k)
    (h : Finds states text T (front ++ rest) stop) : Finds states text T rest stop := by
  induction front with
  | nil => exact h
  | cons k front ih =>
    obtain ⟨hk, hfront⟩ := List.forall_mem_cons.1 hpass
    cases h with
    | pass _ h => exact ih hfront h
    | hit hT hdone => exact absurd (hk.resolve_left hT) (by rw [hdone]; exact nofun)
    | expand hT hstate => exact absurd (hk.resolve_left hT) (by rw [hstate]; exact nofun)

/-- A match ends in the text, and not before the visits that lead to it. -/
theorem stop_bounds (hbound : ∀ k ∈ visits, place ≤ k.2 ∧ k.2 ≤ text.size)
    (h : Finds states text T visits stop) : place ≤ stop ∧ stop ≤ text.size := by
  induction h with
  | pass _ _ ih => exact ih (List.forall_mem_cons.1 hbound).2
  | hit => exact hbound _ List.mem_cons_self
  | expand _ _ _ _ ih =>
    obtain ⟨hk, hrest⟩ := List.forall_mem_cons.1 hbound
    refine ih fun k' hk' => ?_
    rcases List.mem_append.1 hk' with hk' | hk'
    · obtain ⟨hle, hsize⟩ := follow_bounds hk.2 hk'
      exact ⟨Nat.le_trans hk.1 hle, hsize⟩
    · exact hrest k' hk'

/-- **What has been tried in vain may be added** to what has been tried. -/
theorem of_settled (hD : Settled states text D []) (hbound : ∀ k ∈ visits, k.2 ≤ text.size)
    (h : Finds states text T visits stop) :
    Finds states text (fun key => T key ∨ D key) visits stop := by
  induction h with
  | pass hpass _ ih =>
    exact .pass (hpass.imp_left .inl) (ih (List.forall_mem_cons.1 hbound).2)
  | @hit T k rest hT hk =>
    refine .hit (fun hTD => ?_) hk
    have hDk := hTD.resolve_left hT
    exact (hD k (hbound k List.mem_cons_self) hDk _ hk).1 rfl
  | @expand T k rest stop state hT hk hne h ih =>
    obtain ⟨hplace, hrest⟩ := List.forall_mem_cons.1 hbound
    have ih := ih fun k' hk' => (List.mem_append.1 hk').elim
      (fun hk' => (follow_bounds hplace hk').2) (hrest k')
    by_cases hDk : D (keyOf text k)
    · -- all that the state leads to is passed over as well
      have hsame : (fun key => (T key ∨ key = keyOf text k) ∨ D key) = fun key => T key ∨ D key := by
        funext key
        refine propext ⟨?_, Or.imp_left .inl⟩
        rintro ((hT | rfl) | hD)
        · exact .inl hT
        · exact .inr hDk
        · exact .inr hD
      rw [hsame] at ih
      refine .pass (.inl (.inr hDk)) (of_append (fun k' hk' => ?_) ih)
      have hk' := ((hD k hplace hDk state hk).2 k' hk').resolve_right List.not_mem_nil
      exact hk'.imp_left .inr
    · have hsame : (fun key => (T key ∨ key = keyOf text k) ∨ D key) =
          fun key => (T key ∨ D key) ∨ key = keyOf text k :=
        funext fun key => propext or_right_comm
      rw [hsame] at ih
      exact .expand (fun hTD => hTD.elim hT hDk) hk hne ih

/-- What has been tried in vain leads nowhere. -/
theorem false_of_settled (hD : Settled states text D [])
    (hvisits : ∀ k ∈ visits, k.2 ≤ text.size ∧ Passed states text D k)
    (h : Finds states text T visits stop) : False := by
  induction h with
  | pass _ _ ih => exact ih (List.forall_mem_cons.1 hvisits).2
  | @hit T k rest hT hk =>
    obtain ⟨hplace, hpass⟩ := hvisits k List.mem_cons_self
    have hDk := hpass.resolve_right (by rw [hk]; exact nofun)
    exact (hD k hplace hDk _ hk).1 rfl
  | @expand T k rest stop state hT hk hne h ih =>
    obtain ⟨⟨hplace, hpass⟩, hrest⟩ := List.forall_mem_cons.1 hvisits
    have hDk := hpass.resolve_right (by rw [hk]; exact nofun)
    refine ih fun k' hk' => ?_
    rcases List.mem_append.1 hk' with hk' | hk'
    · exact ⟨(follow_bounds hplace hk').2,
        ((hD k hplace hDk state hk).2 k' hk').resolve_right List.not_mem_nil⟩
    · exact hrest k' hk'

end Finds

/-! ## A search -/

/-- What is marked as tried; a key beyond the marks counts as tried. -/
def Marked (tried : Array Bool) (key : Nat) : Prop :=
  tried[key]?.getD true = true

section Run

variable {tried : Array Bool} {key key' : Nat} {s s' : Search}

theorem exists_mark (h : ¬ Marked tried key) : ∃ hlt : key < tried.size, tried[key] = false := by
  unfold Marked at h
  cases hk : tried[key]? with
  | none => exact absurd (by rw [hk]; rfl) h
  | some mark =>
    obtain ⟨hlt, rfl⟩ := Array.getElem?_eq_some_iff.1 hk
    rw [hk] at h
    exact ⟨hlt, Bool.eq_false_iff.2 h⟩

theorem marked_set (h : ¬ Marked tried key) :
    Marked (tried.setIfInBounds key true) = fun key' => Marked tried key' ∨ key' = key := by
  obtain ⟨hlt, -⟩ := exists_mark h
  funext key'
  unfold Marked
  rw [Array.getElem?_setIfInBounds]
  by_cases hkey : key = key'
  · subst hkey
    simp [hlt]
  · simp [hkey, Ne.symm hkey]

theorem count_set (h : ¬ Marked tried key) :
    (tried.setIfInBounds key true).count false + 1 = tried.count false := by
  obtain ⟨hlt, hfalse⟩ := exists_mark h
  have hmem : false ∈ tried := hfalse ▸ Array.getElem_mem hlt
  have hpos := Array.count_pos_iff.2 hmem
  rw [Array.setIfInBounds_def, dif_pos hlt, Array.count_set, hfalse,
    if_pos (beq_self_eq_true false), if_neg (by decide : ¬ (true == false) = true)]
  omega

/-- At places of the text different visits have different keys. -/
theorem keyOf_inj {k k' : Nat × Nat} (hk : k.2 ≤ text.size) (hk' : k'.2 ≤ text.size)
    (h : keyOf text k = keyOf text k') : k = k' := by
  have hdiv : ∀ k : Nat × Nat, k.2 ≤ text.size → keyOf text k / (text.size + 1) = k.1 := by
    intro k hk
    rw [keyOf, Nat.mul_comm, Nat.mul_add_div (Nat.succ_pos _), Nat.div_eq_of_lt (Nat.lt_succ_of_le hk),
      Nat.add_zero]
  have hstate : k.1 = k'.1 := by rw [← hdiv k hk, h, hdiv k' hk']
  rw [keyOf, keyOf, hstate] at h
  exact Prod.ext hstate (Nat.add_left_cancel h)

theorem length_work_le (text : Array Char) (state : State) (place : Nat)
    (slots : Array (Option Nat)) : (work text state place slots).1.length ≤ 2 := by
  cases state with
  | char cls next => simp only [work]; split <;> [split; skip] <;> simp
  | look l next => simp only [work]; split <;> split <;> simp
  | keep slot next => exact Nat.le_refl 2
  | fork first second => exact Nat.le_refl 2
  | done => exact Nat.zero_le 2

/-- **What a search comes to** is described by the order in which it tries the ways. -/
theorem finds_of_run (h : run states text n s = (some stop, s')) :
    Finds states text (Marked s.tried) (visitsOf s.jobs) stop := by
  fun_induction run states text n s with
  | case1 => cases h
  | case2 => cases h
  | case3 _ s _ _ _ hjobs ih =>
    rw [hjobs, visitsOf_restore]
    exact ih h
  | case4 _ s i place _ hjobs key hmarked ih =>
    rw [hjobs, visitsOf_visit]
    exact .pass (.inl hmarked) (ih h)
  | case5 _ s i place _ hjobs key hmarked hstate ih =>
    rw [hjobs, visitsOf_visit]
    exact .pass (.inr hstate) (ih h)
  | case6 _ s i place _ hjobs key hmarked hstate =>
    cases h
    rw [hjobs, visitsOf_visit]
    exact .hit hmarked hstate
  | case7 _ s i place jobs hjobs key hmarked state hne hstate more slots hwork ih =>
    have ih := ih h
    have hmore : visitsOf more = follow text state place := by
      rw [← visitsOf_work text state place s.slots, hwork]
    rw [visitsOf_append, hmore, marked_set hmarked] at ih
    rw [hjobs, visitsOf_visit]
    exact .expand hmarked hstate hne ih

theorem size_run (states : Array State) (text : Array Char) (n : Nat) (s : Search) :
    (run states text n s).2.tried.size = s.tried.size := by
  fun_induction run states text n s with
  | case1 => rfl
  | case2 => rfl
  | case3 _ _ _ _ _ _ ih => exact ih
  | case4 _ _ _ _ _ _ _ _ ih => exact ih
  | case5 _ _ _ _ _ _ _ _ _ ih => exact ih
  | case6 => rfl
  | case7 _ _ _ _ _ _ _ _ _ _ _ _ _ _ ih => rw [ih, Array.size_setIfInBounds]

/-- A pending visit that is passed over need not be pending. -/
theorem Settled.pass (h : Settled states text D (k :: visits)) (hpass : Passed states text D k) :
    Settled states text D visits := by
  intro k₀ hplace hD state hstate
  obtain ⟨hne, hfollow⟩ := h k₀ hplace hD state hstate
  refine ⟨hne, fun k' hk' => ?_⟩
  rcases hfollow k' hk' with hp | hp
  · exact .inl hp
  · rcases List.mem_cons.1 hp with rfl | hp
    · exact .inl hpass
    · exact .inr hp

/-- When a state is tried, where it leads becomes pending. -/
theorem Settled.expand (h : Settled states text D (k :: visits)) (hplace : k.2 ≤ text.size)
    (hstate : states[k.1]? = some state) (hne : state ≠ .done) :
    Settled states text (fun key => D key ∨ key = keyOf text k)
      (follow text state k.2 ++ visits) := by
  intro k₀ hplace₀ hD state₀ hstate₀
  rcases hD with hD | hkey
  · obtain ⟨hne₀, hfollow⟩ := h k₀ hplace₀ hD state₀ hstate₀
    refine ⟨hne₀, fun k' hk' => ?_⟩
    rcases hfollow k' hk' with hp | hp
    · exact .inl (hp.imp_left .inl)
    · rcases List.mem_cons.1 hp with rfl | hp
      · exact .inl (.inl (.inr rfl))
      · exact .inr (List.mem_append_right _ hp)
  · obtain rfl := keyOf_inj hplace₀ hplace hkey
    obtain rfl := Option.some.inj (hstate₀.symm.trans hstate)
    exact ⟨hne, fun k' hk' => .inr (List.mem_append_left _ hk')⟩

/-- **A search that fails has tried in vain** all that it had to visit. Each of its steps takes a job
away, or marks a state at a place and adds one job, so it does not run out of steps. -/
theorem settled_of_run (h : run states text n s = (none, s'))
    (hsteps : s.jobs.length + 2 * s.tried.count false < n)
    (hbound : ∀ k ∈ visitsOf s.jobs, k.2 ≤ text.size)
    (hsettled : Settled states text (Marked s.tried) (visitsOf s.jobs)) :
    Settled states text (Marked s'.tried) [] ∧
      (∀ key, Marked s.tried key → Marked s'.tried key) ∧
      ∀ k ∈ visitsOf s.jobs, Passed states text (Marked s'.tried) k := by
  fun_induction run states text n s with
  | case1 => exact absurd hsteps (Nat.not_lt_zero _)
  | case2 _ s hjobs =>
    cases h
    rw [hjobs] at hsettled ⊢
    exact ⟨hsettled, fun _ hk => hk, nofun⟩
  | case3 _ s _ _ _ hjobs ih =>
    rw [hjobs] at hsteps hbound hsettled ⊢
    rw [visitsOf_restore] at hbound hsettled ⊢
    rw [List.length_cons] at hsteps
    exact ih h (by dsimp only; omega) hbound hsettled
  | case4 _ s i place _ hjobs key hmarked ih =>
    rw [hjobs] at hsteps hbound hsettled ⊢
    rw [visitsOf_visit] at hbound hsettled ⊢
    rw [List.length_cons] at hsteps
    obtain ⟨hfinal, hmono, hpass⟩ := ih h (by dsimp only; omega) (List.forall_mem_cons.1 hbound).2
      (hsettled.pass (.inl hmarked))
    exact ⟨hfinal, hmono, List.forall_mem_cons.2 ⟨.inl (hmono _ hmarked), hpass⟩⟩
  | case5 _ s i place _ hjobs key hmarked hstate ih =>
    rw [hjobs] at hsteps hbound hsettled ⊢
    rw [visitsOf_visit] at hbound hsettled ⊢
    rw [List.length_cons] at hsteps
    obtain ⟨hfinal, hmono, hpass⟩ := ih h (by dsimp only; omega) (List.forall_mem_cons.1 hbound).2
      (hsettled.pass (.inr hstate))
    exact ⟨hfinal, hmono, List.forall_mem_cons.2 ⟨.inr hstate, hpass⟩⟩
  | case6 => cases h
  | case7 _ s i place jobs hjobs key hmarked state hne hstate more slots hwork ih =>
    rw [hjobs] at hsteps hbound hsettled ⊢
    rw [visitsOf_visit] at hbound hsettled ⊢
    obtain ⟨hplace, hrest⟩ := List.forall_mem_cons.1 hbound
    have hmore : visitsOf more = follow text state place := by
      rw [← visitsOf_work text state place s.slots, hwork]
    have hlength : more.length ≤ 2 := by
      have := length_work_le text state place s.slots
      rwa [hwork] at this
    -- one job gives way to two at most, but one key fewer is untried, and that counts for two
    have hcount := count_set hmarked
    rw [List.length_cons] at hsteps
    rw [visitsOf_append, hmore] at ih
    obtain ⟨hfinal, hmono, hpass⟩ := ih h (by rw [List.length_append]; dsimp only; omega)
      (fun k hk => (List.mem_append.1 hk).elim (fun hk => (follow_bounds hplace hk).2) (hrest k))
      (by rw [marked_set hmarked]; exact hsettled.expand hplace hstate hne)
    rw [marked_set hmarked] at hmono
    refine ⟨hfinal, fun _ hk => hmono _ (.inl hk), List.forall_mem_cons.2 ⟨?_, fun k hk => ?_⟩⟩
    · exact .inl (hmono _ (.inr rfl))
    · exact hpass k (List.mem_append_right _ hk)

end Run

/-! ## The match from a place on -/

section Match

variable {program : Compiled} {tried : Array Bool} {slotCount : Nat} {m m' : Found} {a b : Nat}
variable {last : Option Nat}

/-- Marks for nothing tried. -/
def unmarked (program : Compiled) (text : Array Char) : Array Bool :=
  Array.replicate (program.states.size * (text.size + 1)) false

/-- The match that begins at `start` and is preferred there ends at `stop`. -/
def Matches (program : Compiled) (text : Array Char) (start stop : Nat) : Prop :=
  Finds program.states text (Marked (unmarked program text)) [(program.entry, start)] stop

theorem Matches.unique (h : Matches program text place a) (h' : Matches program text place b) :
    a = b :=
  Finds.unique h h'

theorem Matches.stop_bounds (h : Matches program text place stop) (hplace : place ≤ text.size) :
    place ≤ stop ∧ stop ≤ text.size :=
  Finds.stop_bounds (by simpa using hplace) h

/-- All states that there are have marks, so nothing has been tried. -/
theorem settled_unmarked (program : Compiled) (text : Array Char) :
    Settled program.states text (Marked (unmarked program text)) [] := by
  intro k hplace hmarked state hstate
  have hlt := (Array.getElem?_eq_some_iff.1 hstate).1
  have hkey : keyOf text k < program.states.size * (text.size + 1) := by
    have hle := Nat.mul_le_mul_right (text.size + 1) (Nat.succ_le_of_lt hlt)
    rw [Nat.succ_mul] at hle
    unfold keyOf
    omega
  rw [Marked, unmarked, Array.getElem?_replicate, if_pos hkey] at hmarked
  cases hmarked

/-- The search from one place, with its marks from earlier ones. -/
def startAt (program : Compiled) (slotCount place : Nat) (tried : Array Bool) : Search :=
  ⟨[.visit program.entry place], tried, Array.replicate slotCount none⟩

/-- A search from a place has steps enough. -/
theorem lt_steps (hsize : tried.size = program.states.size * (text.size + 1)) :
    (startAt program slotCount place tried).jobs.length + 2 * tried.count false <
      steps program text := by
  have hcount : tried.count false ≤ tried.size := Array.count_le_size
  rw [hsize] at hcount
  simp only [startAt, steps, List.length_singleton]
  omega

/-- A search that fails leaves only what has been tried in vain. -/
theorem settled_of_startAt {s : Search} (hsettled : Settled program.states text (Marked tried) [])
    (hsize : tried.size = program.states.size * (text.size + 1)) (hplace : place ≤ text.size)
    (h : run program.states text (steps program text) (startAt program slotCount place tried) =
      (none, s)) :
    Settled program.states text (Marked s.tried) [] ∧
      Passed program.states text (Marked s.tried) (program.entry, place) := by
  have hpending : Settled program.states text (Marked tried) [(program.entry, place)] := by
    intro k hk hmarked state hstate
    obtain ⟨hne, hfollow⟩ := hsettled k hk hmarked state hstate
    exact ⟨hne, fun k' hk' => .inl ((hfollow k' hk').resolve_right List.not_mem_nil)⟩
  obtain ⟨hfinal, -, hpass⟩ := settled_of_run h (lt_steps hsize)
    (List.forall_mem_singleton.2 hplace) hpending
  exact ⟨hfinal, hpass _ List.mem_cons_self⟩

/-- **What has been tried in vain does not matter** to a search from a place. -/
theorem matches_of_run {s : Search} (hsettled : Settled program.states text (Marked tried) [])
    (hplace : place ≤ text.size)
    (h : run program.states text (steps program text) (startAt program slotCount place tried) =
      (some stop, s)) : Matches program text place stop := by
  have hbound : ∀ k ∈ [(program.entry, place)], k.2 ≤ text.size := List.forall_mem_singleton.2 hplace
  have hfinds : Finds program.states text (Marked tried) [(program.entry, place)] stop :=
    finds_of_run h
  obtain ⟨result, s', hrun⟩ : ∃ result s', run program.states text (steps program text)
      (startAt program slotCount place (unmarked program text)) = (result, s') := ⟨_, _, rfl⟩
  cases result with
  | none =>
    obtain ⟨hfinal, hpass⟩ := settled_of_startAt (settled_unmarked program text)
      Array.size_replicate hplace hrun
    exact (hfinds.false_of_settled hfinal (List.forall_mem_singleton.2 ⟨hplace, hpass⟩)).elim
  | some stop' =>
    have hmatches : Matches program text place stop' := finds_of_run hrun
    -- with both sets of marks the two searches are the same
    have hboth := hfinds.of_settled (settled_unmarked program text) hbound
    have hboth' := hmatches.of_settled hsettled hbound
    rw [show (fun key => Marked (unmarked program text) key ∨ Marked tried key) =
      fun key => Marked tried key ∨ Marked (unmarked program text) key from
        funext fun key => propext or_comm] at hboth'
    rwa [hboth.unique hboth']

theorem leftmost_spec (hsettled : Settled program.states text (Marked tried) [])
    (hsize : tried.size = program.states.size * (text.size + 1)) (hplace : place + n ≤ text.size)
    (h : leftmost program text slotCount n place tried = some m) :
    place ≤ m.start ∧ m.start ≤ text.size ∧ Matches program text m.start m.stop := by
  induction n generalizing place tried with
  | zero =>
    rw [leftmost] at h
    dsimp only at h
    split at h
    · rename_i stop s hrun
      cases h
      exact ⟨Nat.le_refl _, hplace, matches_of_run hsettled hplace hrun⟩
    · cases h
  | succ n ih =>
    have hle : place ≤ text.size := by omega
    rw [leftmost] at h
    dsimp only at h
    split at h
    · rename_i stop s hrun
      cases h
      exact ⟨Nat.le_refl _, hle, matches_of_run hsettled hle hrun⟩
    · rename_i s hrun
      have hfinal := (settled_of_startAt hsettled hsize hle hrun).1
      have hsize' : s.tried.size = program.states.size * (text.size + 1) := by
        have := size_run program.states text (steps program text)
          (startAt program slotCount place tried)
        rw [startAt, hrun] at this
        exact this.trans hsize
      obtain ⟨hlater, hrest⟩ := ih hfinal hsize' (by omega) h
      exact ⟨Nat.le_of_succ_le hlater, hrest⟩

/-- **A match that is found** is the one that is preferred where it begins. -/
theorem find?_spec (h : find? program slotCount text place = some m) :
    place ≤ m.start ∧ m.start ≤ text.size ∧ Matches program text m.start m.stop := by
  rw [find?] at h
  split at h
  · cases h
  · exact leftmost_spec (settled_unmarked program text) Array.size_replicate (by omega) h

/-- The next match is no empty one directly behind the last. -/
theorem next?_spec (h : next? program slotCount text place last = some m) :
    place ≤ m.start ∧ m.start ≤ text.size ∧ Matches program text m.start m.stop ∧
      (last = some place → ¬ (m.start = place ∧ m.stop = place)) := by
  rw [next?] at h
  split at h
  · cases h
  rename_i m' hfind
  split at h
  · rename_i hempty
    obtain ⟨hle, hsize, hmatches⟩ := find?_spec h
    exact ⟨by omega, hsize, hmatches, fun _ he => by omega⟩
  · rename_i hempty
    cases h
    obtain ⟨hle, hsize, hmatches⟩ := find?_spec hfind
    refine ⟨hle, hsize, hmatches, ?_⟩
    rintro rfl ⟨hstart, hstop⟩
    exact hempty ⟨hstart.trans hstop.symm, congrArg some hstop.symm⟩

/-- Matches begin at the place from which they are looked for or later; later, if an empty match is
preferred there and is the last one. -/
theorem le_of_mem_findFrom (h : m ∈ findFrom program slotCount text n place last) :
    place ≤ m.start ∧ m.start ≤ text.size ∧ Matches program text m.start m.stop ∧
      (last = some place → Matches program text place place → place < m.start) := by
  induction n generalizing place last with
  | zero => cases h
  | succ n ih =>
    rw [findFrom] at h
    split at h
    · cases h
    rename_i first hnext
    obtain ⟨hle, hsize, hmatches, hbehind⟩ := next?_spec hnext
    -- a match found right there is the preferred one, hence empty, and those are passed over
    have hstrict : last = some place → Matches program text place place → place < first.start := by
      intro hlast hplace
      refine Nat.lt_of_le_of_ne hle fun he => hbehind hlast ⟨he.symm, ?_⟩
      rw [← he] at hmatches
      exact hmatches.unique hplace
    rcases List.mem_cons.1 h with rfl | h
    · exact ⟨hle, hsize, hmatches, hstrict⟩
    · obtain ⟨hlow, hrest, hm, -⟩ := ih h
      have hstop := (hmatches.stop_bounds hsize).1
      exact ⟨by omega, hrest, hm, fun hlast hplace => by have := hstrict hlast hplace; omega⟩

/-- **Each match begins behind the one before it**, and not before that one's end. -/
theorem findFrom_pairwise (program : Compiled) (slotCount : Nat) (text : Array Char) (n place : Nat)
    (last : Option Nat) : (findFrom program slotCount text n place last).Pairwise
      fun m m' => m.start < m'.start ∧ m.stop ≤ m'.start := by
  induction n generalizing place last with
  | zero => exact .nil
  | succ n ih =>
    rw [findFrom]
    split
    · exact .nil
    rename_i m hnext
    obtain ⟨-, hsize, hmatches, -⟩ := next?_spec hnext
    have hstop := (hmatches.stop_bounds hsize).1
    refine List.pairwise_cons.2 ⟨fun m' hm' => ?_, ih _ _⟩
    obtain ⟨hle, -, -, hstrict⟩ := le_of_mem_findFrom hm'
    refine ⟨?_, hle⟩
    rcases Nat.lt_or_eq_of_le hstop with hlt | heq
    · omega
    · rw [heq] at hmatches
      have := hstrict rfl hmatches
      omega

/-- A match lies in the text. -/
theorem bounds_of_mem_findAll (h : m ∈ findAll program slotCount text) :
    m.start ≤ m.stop ∧ m.stop ≤ text.size := by
  obtain ⟨-, hsize, hmatches, -⟩ := le_of_mem_findFrom h
  exact hmatches.stop_bounds hsize

end Match

end PhpRename.Pattern.Search
