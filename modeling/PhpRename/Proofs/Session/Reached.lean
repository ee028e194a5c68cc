import PhpRename.Proofs.Mention.Word
import PhpRename.Proofs.Path.Parts
import PhpRename.Proofs.Rename.Certain
import PhpRename.Session.Run

/-!
# The sessions that requests lead to

A session holds proposers for the requests that it has taken, and for no others. This is kept by
every request, by those that follow from a first pass as well, and by a whole run.

* `Session.Reached`: requests in some order lead to the session.
* `Session.Consistent`: what its proposers do was asked for; `Reached.consistent`.
* `Request.Agree`: requests want the same done with what has one name. Then so do the proposers
  (`Consistent.agree`).
-/

namespace PhpRename

namespace Session

variable {s t : Session} {p : Proposer}

/-- Requests lead to the session. In between, everything that is not about requests may change:
the mode, what is selected, what is known and gathered, and what has been said. -/
inductive Reached : Session → Prop
  | new : Reached Session.new
  | other {s t : Session} (h : Reached s) (proposers : t.proposers = s.proposers)
      (followUps : t.followUps = s.followUps) (requests : t.requests = s.requests)
      (methods : t.methods = s.methods) : Reached t
  | renameClass {s : Session} (h : Reached s) (old new : String) : Reached (s.renameClass old new)
  | renameClassFile {s : Session} (h : Reached s) (old new : String) :
      Reached (s.renameClassFile old new)
  | renameMethod {s : Session} (h : Reached s) (cls old new : String) (inherited : Bool) :
      Reached (s.renameMethod cls old new inherited)
  | renameFile {s : Session} (h : Reached s) (d : Disk) (old new : Path) :
      Reached (s.renameFile d old new)
  /-- After a first pass, whatever that has found. -/
  | settle {s : Session} (h : Reached s) (d : Disk) : Reached (s.settle d)
  | reset {s : Session} (h : Reached s) : Reached s.reset

/-- What the proposer does in code and annotations was asked for. -/
def Asked (s : Session) : Proposer → Prop
  | .classes old new | .annotations old new => .renameClass old new ∈ s.requests
  | .methods cls old new => (cls, old) ∈ s.methods ∧
      ∃ inherited, .renameMethod cls old new inherited ∈ s.requests
  | .includes old new => .renameFile old new ∈ s.requests
  | .comments _ | .strings _ => True

/-- What the proposers do was asked for, a method has one new name, and the paths of files that
move are spelled plainly. -/
structure Consistent (s : Session) : Prop where
  asked : ∀ p ∈ s.proposers, s.Asked p
  unique : ∀ {cls old new new'}, .methods cls old new ∈ s.proposers →
    .methods cls old new' ∈ s.proposers → new = new'
  plain : ∀ {old new}, .renameFile old new ∈ s.requests → old.IsPlain ∧ new.IsPlain

theorem Asked.mono (h : s.Asked p) (hr : s.requests ⊆ t.requests) (hm : s.methods ⊆ t.methods) :
    t.Asked p := by
  cases p with
  | classes old new => exact hr h
  | annotations old new => exact hr h
  | comments rules => exact True.intro
  | strings rules => exact True.intro
  | methods cls old new =>
    obtain ⟨hmethod, inherited, hreq⟩ := h
    exact ⟨hm hmethod, inherited, hr hreq⟩
  | includes old new => exact hr h

theorem consistent_new : Session.new.Consistent :=
  ⟨by simp [Session.new], by simp [Session.new], by simp [Session.new]⟩

theorem Consistent.congr (h : s.Consistent) (hp : t.proposers = s.proposers)
    (hr : t.requests = s.requests) (hm : t.methods = s.methods) : t.Consistent := by
  refine ⟨?_, ?_, ?_⟩
  · rw [hp]
    exact fun p hmem => (h.asked p hmem).mono (by rw [hr]; exact List.Subset.refl _)
      (by rw [hm]; exact List.Subset.refl _)
  · rw [hp]; exact h.unique
  · rw [hr]; exact h.plain

/-- Proposers and requests can be added together, if they bring no method that is renamed already
and only plain paths. -/
theorem Consistent.add (h : s.Consistent) {ps : List Proposer} {rs : List Request}
    (hp : t.proposers = s.proposers ++ ps) (hr : t.requests = s.requests ++ rs)
    (hm : s.methods ⊆ t.methods) (hasked : ∀ p ∈ ps, t.Asked p)
    (hunique : ∀ {cls old new new'}, .methods cls old new ∈ ps →
      .methods cls old new' ∈ ps → new = new')
    (hfresh : ∀ {cls old new}, .methods cls old new ∈ ps → (cls, old) ∉ s.methods)
    (hplain : ∀ {old new}, .renameFile old new ∈ rs → old.IsPlain ∧ new.IsPlain) :
    t.Consistent := by
  have hsub : s.requests ⊆ t.requests := by rw [hr]; exact List.subset_append_left ..
  refine ⟨?_, ?_, ?_⟩
  · intro p hmem
    rw [hp] at hmem
    rcases List.mem_append.1 hmem with hmem | hmem
    · exact (h.asked p hmem).mono hsub hm
    · exact hasked p hmem
  · intro cls old new new' hmem hmem'
    rw [hp] at hmem hmem'
    rcases List.mem_append.1 hmem with hmem | hmem <;>
      rcases List.mem_append.1 hmem' with hmem' | hmem'
    · exact h.unique hmem hmem'
    · exact absurd (h.asked _ hmem).1 (hfresh hmem')
    · exact absurd (h.asked _ hmem').1 (hfresh hmem)
    · exact hunique hmem hmem'
  · intro old new hmem
    rw [hr] at hmem
    rcases List.mem_append.1 hmem with hmem | hmem
    · exact h.plain hmem
    · exact hplain hmem

/-! ## Requests -/

theorem Consistent.renameClass (h : s.Consistent) (old new : String) :
    (s.renameClass old new).Consistent := by
  have hreq : .renameClass old new ∈ (s.renameClass old new).requests :=
    List.mem_append_right _ List.mem_cons_self
  refine h.add rfl rfl (List.Subset.refl _) ?_ (by simp [Proposer.ofClass])
    (by simp [Proposer.ofClass]) (by simp)
  intro p hp
  rcases (by simpa [Proposer.ofClass] using hp) with rfl | rfl | rfl | rfl
  · exact hreq
  · exact hreq
  · exact True.intro
  · exact True.intro

theorem Consistent.renameClassFile (h : s.Consistent) (old new : String) :
    (s.renameClassFile old new).Consistent := by
  have hclass : (s.renameClass old new).Consistent := h.renameClass old new
  exact hclass.add (List.append_nil _).symm rfl (List.Subset.refl _) (by simp) (by simp) (by simp)
    (by simp)

theorem Consistent.renameMethod (h : s.Consistent) (cls old new : String) (inherited : Bool) :
    (s.renameMethod cls old new inherited).Consistent := by
  rw [Session.renameMethod]
  split
  · exact h
  rename_i hnew
  refine h.add rfl rfl (List.subset_cons_self ..) ?_ ?_ ?_ (by simp)
  · intro p hp
    rcases (by simpa [Proposer.ofMethod] using hp) with rfl | rfl | rfl
    · exact ⟨List.mem_cons_self, inherited, List.mem_append_right _ List.mem_cons_self⟩
    · exact True.intro
    · exact True.intro
  · intro cls₁ old₁ new₁ new₂ hp₁ hp₂
    obtain ⟨-, -, rfl⟩ : cls₁ = cls ∧ old₁ = old ∧ new₁ = new := by
      simpa [Proposer.ofMethod] using hp₁
    obtain ⟨-, -, rfl⟩ : cls₁ = cls ∧ old₁ = old ∧ new₂ = new₁ := by
      simpa [Proposer.ofMethod] using hp₂
    rfl
  · intro cls' old' new' hp
    obtain ⟨rfl, rfl, -⟩ : cls' = cls ∧ old' = old ∧ new' = new := by
      simpa [Proposer.ofMethod] using hp
    simpa using hnew

theorem queueMove_same (s : Session) (d : Disk) (old : Path) (m : Move) :
    (s.queueMove d old m).proposers = s.proposers ∧ (s.queueMove d old m).requests = s.requests ∧
      (s.queueMove d old m).methods = s.methods := by
  unfold queueMove
  split
  · exact ⟨rfl, rfl, rfl⟩
  split <;> exact ⟨rfl, rfl, rfl⟩

theorem Consistent.renameFile (h : s.Consistent) (d : Disk) (old new : Path) :
    (s.renameFile d old new).Consistent := by
  have hsource := Path.isPlain_absoluteFrom d.workingDirectory old
  have htarget := Path.isPlain_absoluteFrom d.workingDirectory new
  unfold Session.renameFile
  dsimp only
  generalize Path.absoluteFrom d.workingDirectory old = source at *
  generalize Path.absoluteFrom d.workingDirectory new = target at *
  split
  · exact h
  obtain ⟨hp, hr, hm⟩ := queueMove_same
    { s with proposers := s.proposers ++ Proposer.ofFile source target } d old ⟨source, target⟩
  refine h.add hp (congrArg (· ++ _) hr) (by rw [hm]; exact List.Subset.refl _) ?_
    (by simp [Proposer.ofFile]) (by simp [Proposer.ofFile]) ?_
  · intro p hmem
    obtain rfl := List.mem_singleton.1 hmem
    exact List.mem_append_right _ List.mem_cons_self
  · intro old' new' hmem
    cases List.mem_singleton.1 hmem
    exact ⟨hsource, htarget⟩

/-- A follow-up asks for methods to be renamed and for files to be moved, and does nothing else. -/
theorem follow_induction {P : Session → Prop} {d : Disk}
    (hmethod : ∀ s cls old new, P s → P (s.renameMethod cls old new false))
    (hfile : ∀ s old new, P s → P (s.renameFile d old new)) (f : FollowUp) (h : P s) :
    P (follow d s f) := by
  cases f with
  | descendants cls old new =>
    exact List.foldlRecOn _ _ h fun s hs child _ => hmethod s child old new hs
  | classFile old new =>
    unfold follow
    dsimp only
    split
    · exact h
    split
    · exact h
    · exact hfile s _ _ h

/-- What requests for methods and files keep is kept by all follow-ups. -/
theorem settle_induction {P : Session → Prop} {d : Disk}
    (hmethod : ∀ s cls old new, P s → P (s.renameMethod cls old new false))
    (hfile : ∀ s old new, P s → P (s.renameFile d old new)) (h : P s) : P (s.settle d) :=
  List.foldlRecOn _ _ h fun _ hs f _ => follow_induction hmethod hfile f hs

/-- What follows from a first pass is asked for like any request. -/
theorem Consistent.settle (h : s.Consistent) (d : Disk) : (s.settle d).Consistent :=
  settle_induction (fun _ cls old new h => h.renameMethod cls old new false)
    (fun _ old new h => h.renameFile d old new) h

/-- **Every session that requests lead to is consistent.** -/
theorem Reached.consistent (h : s.Reached) : s.Consistent := by
  induction h with
  | new => exact consistent_new
  | other _ hp _ hr hm ih => exact ih.congr hp hr hm
  | renameClass _ old new ih => exact ih.renameClass old new
  | renameClassFile _ old new ih => exact ih.renameClassFile old new
  | renameMethod _ cls old new inherited ih => exact ih.renameMethod cls old new inherited
  | renameFile _ d old new ih => exact ih.renameFile d old new
  | settle _ d ih => exact ih.settle d
  | reset _ _ => exact consistent_new.congr rfl rfl rfl

end Session

/-- The requests want the same done with what has one name. The classes that they name are words,
and no method is named by nothing. -/
structure Request.Agree (requests : List Request) : Prop where
  classes : ∀ {old new new'}, .renameClass old new ∈ requests → .renameClass old new' ∈ requests →
    new = new'
  files : ∀ {old new old' new'}, .renameFile old new ∈ requests →
    .renameFile old' new' ∈ requests → (old == old') = true → (new == new') = true
  class_word : ∀ {old new}, .renameClass old new ∈ requests → Mention.IsWord old.toList
  method_ne : ∀ {cls old new inherited}, .renameMethod cls old new inherited ∈ requests → old ≠ ""

/-- **Proposers agree when the requests do.** -/
theorem Session.Consistent.agree {s : Session} (h : s.Consistent)
    (hreq : Request.Agree s.requests) : Proposer.Agree s.proposers := by
  refine ⟨?_, ?_, h.unique, ?_, ?_, ?_, ?_⟩
  · exact fun hp hp' => hreq.classes (h.asked _ hp) (h.asked _ hp')
  · exact fun hp hp' => hreq.classes (h.asked _ hp) (h.asked _ hp')
  · intro old new old' new' hp hp' hold
    have hr : .renameFile old new ∈ s.requests := h.asked _ hp
    have hr' : .renameFile old' new' ∈ s.requests := h.asked _ hp'
    have hnew := hreq.files hr hr' hold
    exact ⟨(h.plain hr).1.eq_of_beq (h.plain hr').1 hold,
      (h.plain hr).2.eq_of_beq (h.plain hr').2 hnew⟩
  · exact fun hp => (hreq.class_word (h.asked _ hp)).ne
  · exact fun hp => hreq.class_word (h.asked _ hp)
  · intro cls old new hp
    obtain ⟨-, inherited, hr⟩ := h.asked _ hp
    exact hreq.method_ne hr

end PhpRename
