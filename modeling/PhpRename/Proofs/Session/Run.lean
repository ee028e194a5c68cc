import PhpRename.Proofs.Selection.Files
import PhpRename.Proofs.Session.Clash

/-!
# Runs do not fail over edits

* `Session.Keeps`: what neither passes nor their follow-ups change in a session.
* `Reached.run`: a run leads to a session that requests lead to.
* `Reached.run_ne_clash`: a run over proper files is not given up over edits that compete.
-/

namespace PhpRename.Session

open Php

variable {s t u : Session} {d : Disk}

/-- The sessions look at the same files and have gathered the same edits. -/
structure Keeps (s t : Session) : Prop where
  selection : t.selection = s.selection
  paths : t.paths = s.paths
  changes : t.ledger.changes = s.ledger.changes

theorem Keeps.refl (s : Session) : s.Keeps s :=
  ⟨rfl, rfl, rfl⟩

theorem Keeps.trans (h : s.Keeps t) (h' : t.Keeps u) : s.Keeps u :=
  ⟨h'.selection.trans h.selection, h'.paths.trans h.paths, h'.changes.trans h.changes⟩

theorem keeps_renameMethod (s : Session) (cls old new : String) (inherited : Bool) :
    s.Keeps (s.renameMethod cls old new inherited) := by
  unfold renameMethod
  split <;> exact ⟨rfl, rfl, rfl⟩

theorem keeps_renameFile (s : Session) (d : Disk) (old new : Path) :
    s.Keeps (s.renameFile d old new) := by
  unfold renameFile queueMove
  dsimp only
  split
  · exact Keeps.refl s
  split
  · exact ⟨rfl, rfl, rfl⟩
  split
  · exact ⟨rfl, rfl, rfl⟩
  · refine ⟨rfl, rfl, ?_⟩
    dsimp only
    rw [Ledger.addMove]
    split <;> rfl

theorem keeps_settle (s : Session) (d : Disk) : s.Keeps (s.settle d) :=
  settle_induction (fun t cls old new h => h.trans (keeps_renameMethod t cls old new false))
    (fun t old new h => h.trans (keeps_renameFile t d old new)) (Keeps.refl s)

/-! ## Runs -/

theorem Reached.pass (hs : s.Reached) (d : Disk) (listeners : List Listener) (keep : Bool) :
    (s.pass d listeners keep).1.Reached :=
  .other hs rfl rfl rfl rfl

theorem Reached.finish (hs : s.Reached) (d : Disk) : (s.finish d).2.1.Reached := by
  unfold Session.finish
  dsimp only
  split <;> exact .other hs rfl rfl rfl rfl

theorem requests_finish (s : Session) (d : Disk) : (s.finish d).2.1.requests = s.requests := by
  unfold finish
  dsimp only
  split <;> rfl

/-- A pass that keeps no edits keeps the session. -/
theorem keeps_pass (s : Session) (d : Disk) (listeners : List Listener) :
    s.Keeps (s.pass d listeners false).1 := by
  refine ⟨rfl, rfl, ?_⟩
  exact congrArg Ledger.changes (Survey.ledger_lookAll ..)

/-- The session once a first pass has been made, if there has to be one; or why it could not be
made. -/
def firstPass (s : Session) (d : Disk) : Session × Option Failure :=
  if s.needsFacts then s.pass d observers false else (s, none)

theorem Reached.firstPass (hs : s.Reached) (d : Disk) : (s.firstPass d).1.Reached := by
  unfold Session.firstPass
  split
  · exact hs.pass d observers false
  · exact hs

theorem keeps_firstPass (s : Session) (d : Disk) : s.Keeps (s.firstPass d).1 := by
  unfold firstPass
  split
  · exact keeps_pass s d observers
  · exact Keeps.refl s

theorem firstPass_fault {failure : Failure} (h : (s.firstPass d).2 = some failure) :
    ∃ fault, failure = .disk fault := by
  unfold firstPass at h
  split at h
  · exact Survey.lookAll_fault h
  · cases h

/-- A pass with the proposers of the session. -/
def lastPass (s : Session) (d : Disk) : Session × Option Failure :=
  s.pass d (s.proposers.map .proposer) true

theorem runPasses_of_first {failure : Failure} (h : s.firstPass d = (t, some failure)) :
    s.runPasses d = (.error failure, t, d) := by
  unfold firstPass at h
  unfold runPasses
  rw [h]

theorem runPasses_of_last {failure : Failure} (h : s.firstPass d = (t, none))
    (hlast : (t.settle d).lastPass d = (u, some failure)) :
    s.runPasses d = (.error failure, u, d) := by
  unfold firstPass at h
  unfold lastPass at hlast
  unfold runPasses
  rw [h]
  dsimp only
  rw [hlast]

theorem runPasses_of_finish (h : s.firstPass d = (t, none))
    (hlast : (t.settle d).lastPass d = (u, none)) : s.runPasses d = u.finish d := by
  unfold firstPass at h
  unfold lastPass at hlast
  unfold runPasses
  rw [h]
  dsimp only
  rw [hlast]

/-- **A run** makes a first pass, takes care of what follows from it, makes a last pass and enacts
the ledger. It ends early over the disk only. -/
theorem runPasses_cases (s : Session) (d : Disk) :
    (∃ fault, s.runPasses d = (.error (.disk fault), (s.firstPass d).1, d)) ∨
    (∃ fault, s.runPasses d =
      (.error (.disk fault), (((s.firstPass d).1.settle d).lastPass d).1, d)) ∨
    s.runPasses d = (((s.firstPass d).1.settle d).lastPass d).1.finish d := by
  rcases hfirst : s.firstPass d with ⟨t, _ | failure⟩
  · right
    rcases hlast : (t.settle d).lastPass d with ⟨u, _ | failure⟩
    · exact .inr (runPasses_of_finish hfirst hlast)
    · obtain ⟨fault, rfl⟩ := Survey.lookAll_fault (congrArg Prod.snd hlast)
      exact .inl ⟨fault, runPasses_of_last hfirst hlast⟩
  · obtain ⟨fault, rfl⟩ := firstPass_fault (congrArg Prod.snd hfirst)
    exact .inl ⟨fault, runPasses_of_first hfirst⟩

theorem Reached.runPasses (hs : s.Reached) (d : Disk) : (s.runPasses d).2.1.Reached := by
  have hfirst := hs.firstPass d
  have hlast := (hfirst.settle d).pass d (((s.firstPass d).1.settle d).proposers.map .proposer) true
  rcases runPasses_cases s d with ⟨fault, he⟩ | ⟨fault, he⟩ | he
  · rw [he]; exact hfirst
  · rw [he]; exact hlast
  · rw [he]; exact hlast.finish d

/-- The session as a run begins: from no facts and no edits. -/
def fresh (s : Session) : Session :=
  { s with db := Symbols.empty, ledger := s.ledger.clearEdits.freeze }

theorem run_eq (s : Session) (d : Disk) :
    (s.run d).1 = (s.fresh.runPasses d).1 ∧
      (s.run d).2.1.requests = (s.fresh.runPasses d).2.1.requests :=
  ⟨rfl, rfl⟩

theorem Reached.fresh (hs : s.Reached) : s.fresh.Reached :=
  .other hs rfl rfl rfl rfl

/-- **A run leads to a session that requests lead to.** -/
theorem Reached.run (hs : s.Reached) (d : Disk) : (s.run d).2.1.Reached :=
  .other (hs.fresh.runPasses d) rfl rfl rfl rfl

/-- A ledger that has gathered what the proposers of a session propose in the selected files can be
enacted, if the requests agree. -/
theorem Reached.exists_enact_lastPass (hs : s.Reached) (hreq : Request.Agree s.requests)
    (hl : s.ledger.changes = [])
    (hproper : ∀ p ∈ s.selection.files d s.paths, ∀ content, d.read p = .ok content →
      (Source.read p content).Proper) :
    ∃ l' done, (s.lastPass d).1.ledger.enact d = (l', done, none) := by
  obtain ⟨sources, hsources, he⟩ := Survey.lookAll_eq_foldl (s.proposers.map .proposer) true d
    (s.selection.files d s.paths) ⟨s.db, s.ledger, ⟨0, 0, 0⟩⟩
  have hledger : (s.lastPass d).1.ledger =
      (sources.foldl (Survey.look (s.proposers.map .proposer) true)
        ⟨s.db, s.ledger, ⟨0, 0, 0⟩⟩).ledger := congrArg Survey.ledger he
  rw [hledger]
  refine Ledger.exists_enact_eq_ok (hs.certainApart hreq s.db hl _ ?_ ?_) d
  · intro x hx
    obtain ⟨p, hp, content, hread, rfl⟩ := hsources x hx
    exact hproper p hp content hread
  · intro x hx y hy hxy
    obtain ⟨p, hp, content, hread, rfl⟩ := hsources x hx
    obtain ⟨q, hq, content', hread', rfl⟩ := hsources y hy
    -- the two files have one path, and so one content
    obtain rfl : p = q := Selection.eq_of_beq hp hq hxy
    rw [hread] at hread'
    cases hread'
    rfl

/-- **A run over proper files is not given up over edits that compete**, if the requests agree that
have been made when it is over. -/
theorem Reached.run_ne_clash (hs : s.Reached) (d : Disk)
    (hreq : Request.Agree (s.run d).2.1.requests)
    (hproper : ∀ p ∈ s.selection.files d s.paths, ∀ content, d.read p = .ok content →
      (Source.read p content).Proper) (file : Path) (fault : Edit.Fault) :
    (s.run d).1 ≠ .error (.edits file fault) := by
  obtain ⟨hresult, hrequests⟩ := run_eq s d
  rw [hrequests] at hreq
  rw [hresult]
  have hkeeps : s.fresh.Keeps ((s.fresh.firstPass d).1.settle d) :=
    (keeps_firstPass s.fresh d).trans (keeps_settle _ d)
  have ht := (hs.fresh.firstPass d).settle d
  rcases runPasses_cases s.fresh d with ⟨fault', he⟩ | ⟨fault', he⟩ | he
  · rw [he]; rintro ⟨⟩
  · rw [he]; rintro ⟨⟩
  rw [he] at hreq ⊢
  rw [requests_finish] at hreq
  obtain ⟨l', done, henact⟩ := ht.exists_enact_lastPass hreq hkeeps.changes
    (by rw [hkeeps.selection, hkeeps.paths]; exact hproper)
  unfold Session.finish
  dsimp only
  rw [henact]
  rintro ⟨⟩

end PhpRename.Session
