import PhpRename.Proofs.Session.Prepared

/-!
# What follows from the requests

Follow-ups ask for renames like a user does. So whatever has happened to a session, there is one list
of requests that leads to it, and taking care of its follow-ups puts more requests behind that list:
those for the classes that inherit a method, and those for the files of classes.

Of all the requests for a method of a class, the *earliest* counts. Whatever the order and the
repeats, the session renames each method that was asked for exactly once, as the earliest request
wants it, and has a follow-up for it exactly if that request wants the inherited ones renamed too.

* `Session.After`: a list of requests leads to the session; `reached_iff_after`.
* `Session.derived`: the requests that its follow-ups make; `settle_eq_foldl`.
* `Session.Exact`: the session renames what the requests ask for; `After.exact`.
* `Session.settle_exact`: **what the methods of a session are renamed to once its follow-ups have been
  taken care of**, and that taking care of them again changes nothing.
-/

namespace PhpRename

/-- What the request wants a method of a class renamed to, and whether the classes that inherit it
are meant too. -/
def Request.methodAs? (cls old : String) : Request → Option (String × Bool)
  | .renameMethod cls' old' new inherited =>
    if (cls', old') = (cls, old) then some (new, inherited) else none
  | _ => none

/-- What the earliest request for the method wants. -/
def Request.earliest (rs : List Request) (cls old : String) : Option (String × Bool) :=
  rs.findSome? (methodAs? cls old)

/-- The name that the proposer gives to the method of the class. -/
def Proposer.newName? (cls old : String) : Proposer → Option String
  | .methods cls' old' new => if (cls', old') = (cls, old) then some new else none
  | _ => none

namespace Session

open Request

variable {s t : Session} {d : Disk} {asked rs : List Request} {cls old new : String}

/-! ## Sessions after requests -/

/-- The session with one request more. -/
def ask (d : Disk) (s : Session) : Request → Session
  | .renameClass old new => s.renameClass old new
  | .renameClassFile old new => s.renameClassFile old new
  | .renameMethod cls old new inherited => s.renameMethod cls old new inherited
  | .renameFile old new => s.renameFile d old new

/-- The requests lead to the session, in this order. Those that are not taken, as they repeat others,
are among them. -/
inductive After : List Request → Session → Prop
  | new : After [] Session.new
  | ask {rs : List Request} {s : Session} (h : After rs s) (d : Disk) (r : Request) :
      After (rs ++ [r]) (s.ask d r)
  | other {rs : List Request} {s t : Session} (h : After rs s)
      (proposers : t.proposers = s.proposers) (followUps : t.followUps = s.followUps)
      (requests : t.requests = s.requests) (methods : t.methods = s.methods) : After rs t
  | reset {rs : List Request} {s : Session} (h : After rs s) : After [] s.reset

theorem After.foldl_ask (h : After asked s) (d : Disk) (rs : List Request) :
    After (asked ++ rs) (rs.foldl (Session.ask d) s) := by
  induction rs generalizing asked s with
  | nil => rwa [List.append_nil]
  | cons r rs ih =>
    have hnext := ih (h.ask d r)
    rwa [List.append_assoc] at hnext

/-- The requests that the follow-up makes, as far as the files are known. -/
def wanted (s : Session) : FollowUp → List Request
  | .descendants cls old new =>
    (s.db.descendants cls).map fun child => .renameMethod child old new false
  | .classFile old new =>
    match s.db.class? old with
    | none => []
    | some c =>
      match Rename.classFileTarget? c.file old new s.selection.extensions.enabled with
      | none => []
      | some target => [.renameFile c.file target]

/-- The requests that all follow-ups make, in the order of the follow-ups. -/
def derived (s : Session) : List Request :=
  s.followUps.flatMap s.wanted

theorem Extends.wanted (h : s.Extends t) : t.wanted = s.wanted := by
  funext f
  unfold Session.wanted
  rw [h.db, h.selection]

theorem follow_eq_foldl (d : Disk) (s : Session) (f : FollowUp) :
    follow d s f = (s.wanted f).foldl (ask d) s := by
  cases f with
  | descendants cls old new =>
    unfold follow wanted
    rw [List.foldl_map]
    rfl
  | classFile old new =>
    unfold follow wanted
    dsimp only
    cases s.db.class? old with
    | none => rfl
    | some c =>
      dsimp only
      cases Rename.classFileTarget? c.file old new s.selection.extensions.enabled with
      | none => rfl
      | some target => rfl

/-- **Taking care of the follow-ups** is asking for what they want, one after the other. What has been
asked for on account of one follow-up does not change what the next one wants. -/
theorem settle_eq_foldl (s : Session) (d : Disk) : s.settle d = s.derived.foldl (ask d) s := by
  -- requests leave what is known of the files, and that is all that a follow-up looks at
  have hfollow : ∀ (fs : List FollowUp) (t : Session), s.Extends t →
      fs.foldl (follow d) t = (fs.flatMap s.wanted).foldl (ask d) t := by
    intro fs
    induction fs with
    | nil => exact fun t _ => rfl
    | cons f fs ih =>
      intro t ht
      have hnext : s.Extends (follow d t f) := ht.trans (extends_follow d t f)
      rw [List.foldl_cons, ih _ hnext, List.flatMap_cons, List.foldl_append, follow_eq_foldl, ht.wanted]
  exact hfollow s.followUps s (Extends.refl s)

theorem After.settle (h : After asked s) (d : Disk) : After (asked ++ s.derived) (s.settle d) := by
  rw [settle_eq_foldl]
  exact h.foldl_ask d s.derived

theorem After.reached (h : After asked s) : s.Reached := by
  induction h with
  | new => exact .new
  | ask _ d r ih =>
    cases r with
    | renameClass old new => exact ih.renameClass old new
    | renameClassFile old new => exact ih.renameClassFile old new
    | renameMethod cls old new inherited => exact ih.renameMethod cls old new inherited
    | renameFile old new => exact ih.renameFile d old new
  | other _ hp hf hr hm ih => exact ih.other hp hf hr hm
  | reset _ ih => exact ih.reset

/-- Requests lead to a session exactly if there is a list of all of them. -/
theorem reached_iff_after : s.Reached ↔ ∃ asked, After asked s := by
  refine ⟨fun h => ?_, fun ⟨asked, h⟩ => h.reached⟩
  induction h with
  | new => exact ⟨[], .new⟩
  | other _ hp hf hr hm ih =>
    obtain ⟨asked, h⟩ := ih
    exact ⟨asked, h.other hp hf hr hm⟩
  | renameClass _ old new ih =>
    obtain ⟨asked, h⟩ := ih
    exact ⟨_, h.ask (Disk.empty []) (.renameClass old new)⟩
  | renameClassFile _ old new ih =>
    obtain ⟨asked, h⟩ := ih
    exact ⟨_, h.ask (Disk.empty []) (.renameClassFile old new)⟩
  | renameMethod _ cls old new inherited ih =>
    obtain ⟨asked, h⟩ := ih
    exact ⟨_, h.ask (Disk.empty []) (.renameMethod cls old new inherited)⟩
  | renameFile _ d old new ih =>
    obtain ⟨asked, h⟩ := ih
    exact ⟨_, h.ask d (.renameFile old new)⟩
  | settle _ d ih =>
    obtain ⟨asked, h⟩ := ih
    exact ⟨_, h.settle d⟩
  | reset _ ih =>
    obtain ⟨asked, h⟩ := ih
    exact ⟨[], h.reset⟩

/-! ## The earliest request counts -/

theorem earliest_concat (rs : List Request) (r : Request) (cls old : String) :
    earliest (rs ++ [r]) cls old = (earliest rs cls old).or (r.methodAs? cls old) := by
  unfold earliest
  rw [List.findSome?_append]
  cases h : r.methodAs? cls old with
  | none => simp [h]
  | some named => simp [h]

/-- The names that the session gives to the method of the class, one for each proposer. -/
def newNames (s : Session) (cls old : String) : List String :=
  s.proposers.filterMap (Proposer.newName? cls old)

/-- The session renames the methods that the requests ask for, each as the earliest request for it
wants. -/
structure Exact (rs : List Request) (s : Session) : Prop where
  methods : ∀ cls old, (cls, old) ∈ s.methods ↔ (earliest rs cls old).isSome
  newNames : ∀ cls old, s.newNames cls old = ((earliest rs cls old).map Prod.fst).toList
  followUps : ∀ cls old new,
    .descendants cls old new ∈ s.followUps ↔ earliest rs cls old = some (new, true)

/-- Requests that are for no method change nothing about methods. -/
theorem Exact.aside (h : Exact rs s) {r : Request} (ps : List Proposer) (fs : List FollowUp)
    (hr : ∀ cls old, r.methodAs? cls old = none) (hps : ∀ p ∈ ps, ∀ cls old, p.newName? cls old = none)
    (hfs : ∀ cls old new, .descendants cls old new ∉ fs) (hp : t.proposers = s.proposers ++ ps)
    (hf : t.followUps = s.followUps ++ fs) (hm : t.methods = s.methods) : Exact (rs ++ [r]) t := by
  have hearliest : ∀ cls old, earliest (rs ++ [r]) cls old = earliest rs cls old := by
    intro cls old
    rw [earliest_concat, hr, Option.or_none]
  refine ⟨fun cls old => ?_, fun cls old => ?_, fun cls old new => ?_⟩
  · rw [hm, hearliest]
    exact h.methods cls old
  · have hnone : ps.filterMap (Proposer.newName? cls old) = [] :=
      List.filterMap_eq_nil_iff.2 fun p hmem => hps p hmem cls old
    rw [Session.newNames, hp, List.filterMap_append, hnone, List.append_nil, hearliest]
    exact h.newNames cls old
  · rw [hf, hearliest, List.mem_append, or_iff_left (hfs cls old new)]
    exact h.followUps cls old new

theorem Exact.renameMethod (h : Exact rs s) (cls old new : String) (inherited : Bool) :
    Exact (rs ++ [.renameMethod cls old new inherited]) (s.renameMethod cls old new inherited) := by
  have hself : methodAs? cls old (.renameMethod cls old new inherited) = some (new, inherited) :=
    if_pos rfl
  have hother : ∀ {cls' old'}, (cls, old) ≠ (cls', old') →
      methodAs? cls' old' (.renameMethod cls old new inherited) = none := fun hne => if_neg hne
  unfold Session.renameMethod
  split
  · -- there has been a request for this method, and it stays the earliest
    rename_i hcontains
    have hknown := (h.methods cls old).1 (List.contains_iff_mem.1 hcontains)
    have hearliest : ∀ cls' old', earliest (rs ++ [.renameMethod cls old new inherited]) cls' old' =
        earliest rs cls' old' := by
      intro cls' old'
      rw [earliest_concat]
      by_cases heq : (cls, old) = (cls', old')
      · cases heq
        exact Option.or_of_isSome hknown
      · rw [hother heq, Option.or_none]
    refine ⟨fun cls' old' => ?_, fun cls' old' => ?_, fun cls' old' new' => ?_⟩
    · rw [hearliest]
      exact h.methods cls' old'
    · rw [hearliest]
      exact h.newNames cls' old'
    · rw [hearliest]
      exact h.followUps cls' old' new'
  · -- this is the first request for this method
    rename_i hcontains
    have hfirst : earliest rs cls old = none := by
      have hnew := mt (h.methods cls old).2 (mt List.contains_iff_mem.2 hcontains)
      exact Option.not_isSome_iff_eq_none.1 hnew
    have hnone : s.newNames cls old = [] := by rw [h.newNames, hfirst]; rfl
    refine ⟨fun cls' old' => ?_, fun cls' old' => ?_, fun cls' old' new' => ?_⟩
    · rw [earliest_concat, List.mem_cons]
      by_cases heq : (cls, old) = (cls', old')
      · cases heq
        simp [hself, hfirst]
      · rw [hother heq, Option.or_none, or_iff_right (Ne.symm heq)]
        exact h.methods cls' old'
    · rw [earliest_concat, Session.newNames, List.filterMap_append]
      by_cases heq : (cls, old) = (cls', old')
      · cases heq
        have hown : (Proposer.ofMethod cls old new).filterMap (Proposer.newName? cls old) = [new] := by
          simp [Proposer.ofMethod, Proposer.newName?]
        rw [hown, hself, hfirst, ← Session.newNames, hnone]
        rfl
      · have hown : (Proposer.ofMethod cls old new).filterMap (Proposer.newName? cls' old') = [] := by
          simp [Proposer.ofMethod, Proposer.newName?, heq]
        rw [hown, List.append_nil, hother heq, Option.or_none]
        exact h.newNames cls' old'
    · rw [earliest_concat, List.mem_append, h.followUps]
      by_cases heq : (cls, old) = (cls', old')
      · cases heq
        rw [hfirst, hself]
        cases inherited <;> simp [eq_comm]
      · have hown : .descendants cls' old' new' ∉
            (if inherited then [FollowUp.descendants cls old new] else []) := by
          intro hmem
          split at hmem
          · cases List.mem_singleton.1 hmem
            exact heq rfl
          · cases hmem
        rw [hother heq, Option.or_none, or_iff_left hown]

theorem Exact.renameFile (h : Exact rs s) (d : Disk) (old new : Path) :
    Exact (rs ++ [.renameFile old new]) (s.renameFile d old new) := by
  have hplain : ∀ ps {t}, (∀ p ∈ ps, ∀ cls old, Proposer.newName? cls old p = none) →
      t.proposers = s.proposers ++ ps → t.followUps = s.followUps → t.methods = s.methods →
      Exact (rs ++ [.renameFile old new]) t := by
    intro ps t hps hp hf hm
    refine h.aside ps [] (fun _ _ => rfl) hps (fun _ _ _ => List.not_mem_nil) hp ?_ hm
    rw [hf, List.append_nil]
  unfold Session.renameFile queueMove
  dsimp only
  split
  · exact hplain [] (by simp) (List.append_nil _).symm rfl rfl
  repeat' split
  all_goals exact hplain _ (by simp [Proposer.ofFile, Proposer.newName?]) rfl rfl rfl

theorem exact_new : Exact [] Session.new := by
  refine ⟨fun _ _ => ?_, fun _ _ => rfl, fun _ _ _ => ?_⟩ <;> simp [Session.new, earliest]

theorem Exact.congr (h : Exact rs s) (hp : t.proposers = s.proposers)
    (hf : t.followUps = s.followUps) (hm : t.methods = s.methods) : Exact rs t := by
  refine ⟨?_, ?_, ?_⟩
  · rw [hm]; exact h.methods
  · unfold Session.newNames
    rw [hp]; exact h.newNames
  · rw [hf]; exact h.followUps

/-- What one request does to the methods. -/
theorem Exact.ask (h : Exact rs s) (d : Disk) (r : Request) : Exact (rs ++ [r]) (s.ask d r) := by
  cases r with
  | renameClass old new =>
    refine h.aside _ [] (fun _ _ => rfl) ?_ (fun _ _ _ => List.not_mem_nil) rfl
      (List.append_nil _).symm rfl
    simp [Proposer.ofClass, Proposer.newName?]
  | renameClassFile old new =>
    refine h.aside _ _ (fun _ _ => rfl) ?_ ?_ rfl rfl rfl
    · simp [Proposer.ofClass, Proposer.newName?]
    · simp
  | renameMethod cls old new inherited => exact h.renameMethod cls old new inherited
  | renameFile old new => exact h.renameFile d old new

/-- **A session renames the methods that were asked for**, whatever requests there were. -/
theorem After.exact (h : After asked s) : Exact asked s := by
  induction h with
  | new => exact exact_new
  | ask _ d r ih => exact ih.ask d r
  | other _ hp hf _ hm ih => exact ih.congr hp hf hm
  | reset _ _ => exact exact_new.congr rfl rfl rfl

/-! ## What follows -/

theorem methodAs?_isSome {r : Request} :
    (r.methodAs? cls old).isSome ↔ ∃ new inherited, r = .renameMethod cls old new inherited := by
  cases r with
  | renameMethod cls' old' new inherited =>
    by_cases heq : (cls', old') = (cls, old)
    · cases heq
      simp [methodAs?]
    · have hne : ¬ (cls' = cls ∧ old' = old) := by rwa [Prod.mk.injEq] at heq
      simp [methodAs?, hne]
  | _ => simp [methodAs?]

/-- A method is asked for on account of the follow-ups that are for classes it is inherited from. -/
theorem earliest_derived_isSome : (earliest s.derived cls old).isSome ↔
    ∃ ancestor new, .descendants ancestor old new ∈ s.followUps ∧
      cls ∈ s.db.descendants ancestor := by
  unfold earliest derived
  rw [List.findSome?_isSome_iff]
  constructor
  · rintro ⟨r, hr, hmethod⟩
    obtain ⟨new, inherited, rfl⟩ := methodAs?_isSome.1 hmethod
    obtain ⟨f, hf, hwanted⟩ := List.mem_flatMap.1 hr
    cases f with
    | descendants ancestor old' new' =>
      obtain ⟨child, hchild, heq⟩ := List.mem_map.1 hwanted
      cases heq
      exact ⟨ancestor, new, hf, hchild⟩
    | classFile old' new' =>
      unfold wanted at hwanted
      dsimp only at hwanted
      split at hwanted
      · cases hwanted
      split at hwanted
      · cases hwanted
      · cases List.mem_singleton.1 hwanted
  · rintro ⟨ancestor, new, hf, hcls⟩
    refine ⟨.renameMethod cls old new false, List.mem_flatMap.2 ⟨_, hf, ?_⟩, ?_⟩
    · exact List.mem_map.2 ⟨cls, hcls, rfl⟩
    · exact methodAs?_isSome.2 ⟨new, false, rfl⟩

/-- **What the methods are renamed to.** Let the requests `asked`, in this order, have led to the
session, whatever it knows of the files. Taking care of its follow-ups leaves no new follow-ups. Then
each method of a class has one proposer that gives it a name if it was asked for, or if the earliest
request for a method of the same name of a class above wants the inherited ones renamed too, and none
otherwise. The name is that of the earliest request, the follow-ups asking last and in their order. And
no session that has taken these requests, and knows the same of the files, is changed by taking care
of the follow-ups again. -/
theorem settle_exact (h : After asked s) (d : Disk) :
    (s.settle d).followUps = s.followUps ∧
    (∀ cls old, (s.settle d).newNames cls old =
      ((earliest (asked ++ s.derived) cls old).map Prod.fst).toList) ∧
    (∀ cls old, (earliest (asked ++ s.derived) cls old).isSome ↔
      (earliest asked cls old).isSome ∨
      ∃ ancestor new, earliest asked ancestor old = some (new, true) ∧
        cls ∈ s.db.descendants ancestor) ∧
    ∀ t, (s.settle d).Extends t → t.followUps = s.followUps → t.settle d = t := by
  have hexact := h.exact
  refine ⟨followUps_settle s d, (h.settle d).exact.newNames, fun cls old => ?_, fun t ht hf => ?_⟩
  · rw [show earliest (asked ++ s.derived) cls old =
        (earliest asked cls old).or (earliest s.derived cls old) from List.findSome?_append,
      Option.isSome_or, Bool.or_eq_true, earliest_derived_isSome]
    -- a follow-up for inherited methods stands for an earliest request that wants them renamed
    refine or_congr_right ?_
    constructor
    · rintro ⟨ancestor, new, hf, hcls⟩
      exact ⟨ancestor, new, (hexact.followUps ..).1 hf, hcls⟩
    · rintro ⟨ancestor, new, hearliest, hcls⟩
      exact ⟨ancestor, new, (hexact.followUps ..).2 hearliest, hcls⟩
  · refine settle_of_taken fun f hmem => ?_
    rw [hf] at hmem
    exact (taken_settle s d f hmem).mono ht

/-- A class, a class that inherits from it, and one that inherits from that. -/
def threeClasses : Symbols :=
  ((Symbols.empty.addClass "A" none ⟨"/a.php"⟩).addClass "B" (some "A")
    ⟨"/b.php"⟩).addClass "C" (some "B") ⟨"/c.php"⟩

/-- The method of the middle class is renamed in its own way, and a second request for that, with all
that inherit it, comes too late. -/
def middleFirst : List Request :=
  [.renameMethod "B" "m" "own" false, .renameMethod "A" "m" "all" true,
   .renameMethod "B" "m" "late" true]

theorem settle_exact_middleFirst :
    let s := { middleFirst.foldl (ask (Disk.empty [])) Session.new with db := threeClasses }
    let t := s.settle (Disk.empty [])
    After middleFirst s ∧ t.newNames "A" "m" = ["all"] ∧ t.newNames "B" "m" = ["own"] ∧
      t.newNames "C" "m" = ["all"] ∧ t.newNames "D" "m" = [] ∧ t.settle (Disk.empty []) = t := by
  intro s t
  have h : After middleFirst s :=
    (After.new.foldl_ask (Disk.empty []) middleFirst).other rfl rfl rfl rfl
  obtain ⟨hsame, hnames, -, hagain⟩ := settle_exact h (Disk.empty [])
  refine ⟨h, ?_, ?_, ?_, ?_, hagain t (Extends.refl t) hsame⟩
  · exact (hnames "A" "m").trans (by cbv)
  · exact (hnames "B" "m").trans (by cbv)
  · exact (hnames "C" "m").trans (by cbv)
  · exact (hnames "D" "m").trans (by cbv)

end Session

end PhpRename
