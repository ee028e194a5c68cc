import PhpRename.Proofs.Session.Prepared

/-!
# Sessions that gather the same

What a run gathers depends on the requests that the session has taken and on the disk. It depends
neither on the mode nor on what has been said, and the edits do not depend on the moves that are
queued. A session that has been prepared gathers again what it has gathered before, even if the moves
are gone.

* `Session.SameRequests`: sessions that have taken the same requests.
* `Session.Agrees`: they also know the same and have gathered the same edits.
* `Session.SameRequests.gathered`, `Session.SameRequests.gathered_again`: what such sessions gather.
* `Session.of_setMode`: a session in another mode.
-/

namespace PhpRename

theorem Setting.mode?_ofMode (m : Mode) : (Setting.ofMode m).mode? = some m := by
  cases m <;> rfl

namespace Ledger

variable {l l' : Ledger} {m : Mode}

theorem exists_setMode (h : l.frozen = false) (m : Mode) : ∃ l', l.setMode m = .ok l' := by
  rw [setMode, put, h, Setting.mode?_ofMode]
  exact ⟨_, rfl⟩

theorem mode_of_setMode (h : l.setMode m = .ok l') :
    l'.mode = m ∧ l' = { l with settings := l'.settings } := by
  rw [setMode, put] at h
  split at h
  · cases h
  split at h
  · cases h
  · cases h
    exact ⟨congrArg (Option.getD · _) (Setting.mode?_ofMode m), rfl⟩

theorem changes_addMove (l : Ledger) (m : Move) : (l.addMove m).changes = l.changes := by
  rw [addMove]
  split <;> rfl

theorem moves_addMove_congr (h : l'.moves = l.moves) (m : Move) :
    (l'.addMove m).moves = (l.addMove m).moves := by
  rw [addMove, addMove, h]
  split
  · exact h
  · rfl

end Ledger

namespace Session

variable {s t u : Session} {m : Mode} {d : Disk}

/-- The sessions have taken the same requests. -/
structure SameRequests (s t : Session) : Prop where
  selection : t.selection = s.selection
  paths : t.paths = s.paths
  proposers : t.proposers = s.proposers
  followUps : t.followUps = s.followUps
  requests : t.requests = s.requests
  methods : t.methods = s.methods
  needsFacts : t.needsFacts = s.needsFacts

/-- The sessions have taken the same requests, know the same and have gathered the same edits. -/
structure Agrees (s t : Session) : Prop extends SameRequests s t where
  db : t.db = s.db
  changes : t.ledger.changes = s.ledger.changes

theorem SameRequests.trans (h : s.SameRequests t) (h' : t.SameRequests u) : s.SameRequests u :=
  ⟨h'.selection.trans h.selection, h'.paths.trans h.paths, h'.proposers.trans h.proposers,
    h'.followUps.trans h.followUps, h'.requests.trans h.requests, h'.methods.trans h.methods,
    h'.needsFacts.trans h.needsFacts⟩

theorem SameRequests.symm (h : s.SameRequests t) : t.SameRequests s :=
  ⟨h.selection.symm, h.paths.symm, h.proposers.symm, h.followUps.symm, h.requests.symm,
    h.methods.symm, h.needsFacts.symm⟩

theorem SameRequests.fresh (h : s.SameRequests t) : s.fresh.Agrees t.fresh :=
  ⟨⟨h.selection, h.paths, h.proposers, h.followUps, h.requests, h.methods, h.needsFacts⟩, rfl, rfl⟩

theorem Agrees.pass (h : s.Agrees t) (d : Disk) (listeners : List Listener) (keep : Bool) :
    (s.pass d listeners keep).1.Agrees (t.pass d listeners keep).1 ∧
      (t.pass d listeners keep).2 = (s.pass d listeners keep).2 := by
  obtain ⟨hdb, hchanges, hfault⟩ :=
    pass_congr ⟨h.selection, h.paths, h.changes⟩ h.db d listeners keep
  exact ⟨⟨⟨h.selection, h.paths, h.proposers, h.followUps, h.requests, h.methods, h.needsFacts⟩,
    hdb, hchanges⟩, hfault⟩

theorem Agrees.firstPass (h : s.Agrees t) (d : Disk) :
    (s.firstPass d).1.Agrees (t.firstPass d).1 ∧ (t.firstPass d).2 = (s.firstPass d).2 := by
  unfold Session.firstPass
  rw [h.needsFacts]
  split
  · exact h.pass d observers false
  · exact ⟨h, rfl⟩

theorem Agrees.lastPass (h : s.Agrees t) (d : Disk) :
    (s.lastPass d).1.Agrees (t.lastPass d).1 ∧ (t.lastPass d).2 = (s.lastPass d).2 := by
  unfold Session.lastPass
  rw [h.proposers]
  exact h.pass d _ true

/-- The sessions agree, and the same moves are queued. -/
def AgreesOnMoves (s t : Session) : Prop :=
  s.Agrees t ∧ t.ledger.moves = s.ledger.moves

theorem AgreesOnMoves.renameMethod (h : s.AgreesOnMoves t) (cls old new : String)
    (inherited : Bool) :
    (s.renameMethod cls old new inherited).AgreesOnMoves (t.renameMethod cls old new inherited) := by
  obtain ⟨h, hmoves⟩ := h
  unfold Session.renameMethod
  rw [h.methods]
  split
  · exact ⟨h, hmoves⟩
  · refine ⟨⟨⟨h.selection, h.paths, ?_, ?_, ?_, rfl, rfl⟩, h.db, h.changes⟩, hmoves⟩
    · exact congrArg (· ++ _) h.proposers
    · exact congrArg (· ++ _) h.followUps
    · exact congrArg (· ++ _) h.requests

theorem AgreesOnMoves.queueMove (h : s.AgreesOnMoves t) (d : Disk) (old : Path) (m : Move) :
    (s.queueMove d old m).AgreesOnMoves (t.queueMove d old m) := by
  obtain ⟨h, hmoves⟩ := h
  unfold Session.queueMove
  split
  · exact ⟨⟨{ h with }, h.db, h.changes⟩, hmoves⟩
  split
  · exact ⟨⟨{ h with }, h.db, h.changes⟩, hmoves⟩
  · refine ⟨⟨{ h with }, h.db, ?_⟩, ?_⟩
    · exact (Ledger.changes_addMove ..).trans (h.changes.trans (Ledger.changes_addMove ..).symm)
    · exact Ledger.moves_addMove_congr hmoves m

theorem AgreesOnMoves.renameFile (h : s.AgreesOnMoves t) (d : Disk) (old new : Path) :
    (s.renameFile d old new).AgreesOnMoves (t.renameFile d old new) := by
  unfold Session.renameFile
  dsimp only
  generalize Path.absoluteFrom d.workingDirectory old = source
  generalize Path.absoluteFrom d.workingDirectory new = target
  have htaken : t.requests.contains (.renameFile source target) =
      s.requests.contains (.renameFile source target) := by rw [h.1.requests]
  rw [htaken]
  split
  · exact h
  -- the proposer is added, then the move is queued, then the request is noted
  have hproposers : AgreesOnMoves
      { s with proposers := s.proposers ++ Proposer.ofFile source target }
      { t with proposers := t.proposers ++ Proposer.ofFile source target } :=
    ⟨⟨{ h.1 with proposers := congrArg (· ++ _) h.1.proposers }, h.1.db, h.1.changes⟩, h.2⟩
  obtain ⟨hqueued, hmoves⟩ := hproposers.queueMove d old ⟨source, target⟩
  exact ⟨⟨{ hqueued with requests := congrArg (· ++ _) hqueued.requests }, hqueued.db,
    hqueued.changes⟩, hmoves⟩

theorem AgreesOnMoves.follow (h : s.AgreesOnMoves t) (d : Disk) (f : FollowUp) :
    (follow d s f).AgreesOnMoves (follow d t f) := by
  cases f with
  | descendants cls old new =>
    rw [Session.follow, Session.follow, h.1.db]
    exact List.foldl_rel h fun child _ s t h => h.renameMethod child old new false
  | classFile old new =>
    rw [Session.follow, Session.follow, h.1.db, h.1.selection]
    split
    · exact h
    split
    · exact h
    · exact h.renameFile d _ _

theorem AgreesOnMoves.settle (h : s.AgreesOnMoves t) (d : Disk) :
    (s.settle d).AgreesOnMoves (t.settle d) := by
  rw [Session.settle, Session.settle, h.1.followUps]
  exact List.foldl_rel h fun f _ s t h => h.follow d f

theorem passFault?_congr (hfirst : (t.fresh.firstPass d).2 = (s.fresh.firstPass d).2)
    (h : (s.prepared d).Agrees (t.prepared d)) :
    t.passFault? d = s.passFault? d ∧ (s.gathered d).Agrees (t.gathered d) := by
  obtain ⟨hgathered, hlast⟩ := h.lastPass d
  exact ⟨by rw [passFault?, passFault?, hfirst, hlast], hgathered⟩

/-- Sessions that have taken the same requests and have the same moves queued gather the same. -/
theorem SameRequests.gathered (h : s.SameRequests t) (hmoves : t.ledger.moves = s.ledger.moves)
    (d : Disk) : t.passFault? d = s.passFault? d ∧ (s.gathered d).AgreesOnMoves (t.gathered d) := by
  obtain ⟨hfirst, hfault⟩ := h.fresh.firstPass d
  have hqueued : (t.fresh.firstPass d).1.ledger.moves = (s.fresh.firstPass d).1.ledger.moves := by
    rw [ledger_firstPass, ledger_firstPass]
    exact hmoves
  obtain ⟨hprepared, hmoves'⟩ := AgreesOnMoves.settle ⟨hfirst, hqueued⟩ d
  obtain ⟨hfault', hgathered⟩ := passFault?_congr hfault hprepared
  exact ⟨hfault', hgathered, (moves_gathered t d).trans (hmoves'.trans (moves_gathered s d).symm)⟩

/-- **What is found out once is found out again**, and gathered again, whatever has become of the
moves. -/
theorem SameRequests.gathered_again (h : (s.prepared d).SameRequests t) :
    t.passFault? d = s.passFault? d ∧ (s.gathered d).Agrees (t.gathered d) ∧
      (t.gathered d).ledger.moves = t.ledger.moves := by
  obtain ⟨hagain, hfault⟩ := h.fresh.firstPass d
  rw [firstPass_prepared] at hagain hfault
  -- all that follows has been asked for
  have hsettled : t.prepared d = (t.fresh.firstPass d).1 := by
    refine settle_of_taken fun f hf => ?_
    rw [hagain.followUps, prepared, followUps_settle] at hf
    refine (taken_settle _ d f hf).mono ⟨hagain.selection, hagain.db, ?_, ?_⟩
    · rw [hagain.methods]
      exact List.Subset.refl _
    · rw [hagain.requests]
      exact List.Subset.refl _
  obtain ⟨hfault', hgathered⟩ := passFault?_congr hfault (by rw [hsettled]; exact hagain)
  exact ⟨hfault', hgathered, by rw [moves_gathered, hsettled, ledger_firstPass]; rfl⟩

/-! ## Modes -/

theorem exists_setMode (h : s.ledger.frozen = false) (m : Mode) : ∃ t, s.setMode m = .ok t := by
  obtain ⟨l, hl⟩ := Ledger.exists_setMode h m
  exact ⟨{ s with ledger := l }, by rw [setMode, hl]; rfl⟩

/-- Another mode is nothing but another setting. -/
theorem of_setMode (h : s.setMode m = .ok t) :
    t.ledger.mode = m ∧ s.SameRequests t ∧ t.ledger.moves = s.ledger.moves := by
  rw [setMode] at h
  cases hl : s.ledger.setMode m with
  | error failure =>
    rw [hl] at h
    cases h
  | ok l =>
    rw [hl] at h
    cases h
    obtain ⟨hmode, hledger⟩ := Ledger.mode_of_setMode hl
    exact ⟨hmode, ⟨rfl, rfl, rfl, rfl, rfl, rfl, rfl⟩, by rw [hledger]⟩

/-- A run keeps the mode. -/
theorem mode_gathered (s : Session) (d : Disk) : (s.gathered d).ledger.mode = s.ledger.mode := by
  rw [ledger_gathered]
  rfl

end Session

end PhpRename
