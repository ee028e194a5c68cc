import PhpRename.Proofs.Ledger.Moves
import PhpRename.Proofs.Session.Agrees
import PhpRename.Proofs.Session.Failure

/-!
# Dry runs

A timid run changes nothing on the disk. It says what a run in another mode would do, and such a run
may come after it. What that run finds out is what the timid run has found out before
(`prepared_prepared`), so the edits are the same.

The moves are not. Every run takes them from the queue, and a timid run does no more than name them.
What asks for them has been asked for, so it is not asked for again: a later run fixes the inclusions
of a file that then stays where it is.

* `Ledger.enact_without_moves`: a ledger is enacted in the same way without its moves.
* `Session.gathered_after_timid`: the run after a timid run gathers the same edits.
* `Session.timid_run_is_dry`: what a run does after a timid one, and what it leaves out.
-/

namespace PhpRename

/-! ## Ledgers without moves -/

namespace Ledger

variable {l l' : Ledger} {m : Mode} {d : Disk}

/-- **Without its moves a ledger is enacted all the same**, and the moves can be made afterwards. -/
theorem enact_without_moves (hchanges : l'.changes = l.changes) (hmode : l'.mode = l.mode)
    (hmoves : l'.moves = []) (hm : l.mode ≠ .timid) (d : Disk) :
    (∃ failure, (l.enact d).2.2 = some failure ∧ (l'.enact d).2.2 = some failure) ∨
    (l.enact d).2.2 = none ∧ (l'.enact d).2.2 = none ∧
      (l.enact d).2.1.disk = (l'.enact d).2.1.disk.carryOutAll l.moves := by
  have hchoices : l'.choices = l.choices := by rw [choices, choices, hchanges, hmode]
  rw [enact, enact, hchoices, hmode, hmoves]
  cases firstClash? l.choices with
  | some failure => exact .inl ⟨failure, rfl, rfl⟩
  | none => exact .inr ⟨rfl, rfl, congrArg Progress.disk (foldl_applyMove_eq hm l.moves _)⟩

end Ledger

namespace Session

variable {s t u v : Session} {m : Mode} {d : Disk}

/-! ## Runs -/

/-- A timid run whose passes do not fail leaves the disk as it is, and names the moves that it takes
from the queue. -/
theorem run_of_timid (h : s.ledger.mode = .timid) (hfault : s.passFault? d = none) :
    ∃ report, (s.run d).1 = .ok report ∧
      report.remarks = ((s.gathered d).ledger.moves.map fun m => .wouldMove m.source m.target) ∧
      (s.run d).2.2 = d ∧ (s.run d).2.1.ledger.moves = [] ∧
      (s.prepared d).SameRequests (s.run d).2.1 := by
  obtain ⟨l, done, henact, hdisk, hmoves, -, hremarks⟩ :=
    Ledger.enact_of_timid ((mode_gathered s d).trans h) d
  rw [run_of_gathered hfault, finish_of_ok henact]
  exact ⟨done.report, rfl, hremarks, hdisk, hmoves, ⟨rfl, rfl, rfl, rfl, rfl, rfl, rfl⟩⟩

/-- A run that fails in its first pass has taken no further requests, and one that fails in its last
pass those that it was prepared with. -/
theorem sameRequests_of_passFault {failure : Failure} (h : s.passFault? d = some failure) :
    s.SameRequests (s.run d).2.1 ∧ (s.fresh.firstPass d).2 = some failure ∨
      (s.prepared d).SameRequests (s.run d).2.1 := by
  rcases Option.or_eq_some_iff.1 h with hfirst | ⟨hfirst, hlast⟩
  · refine .inl ⟨?_, hfirst⟩
    rw [run_of_first hfirst, firstPass]
    split <;> exact ⟨rfl, rfl, rfl, rfl, rfl, rfl, rfl⟩
  · rw [run_of_last hfirst hlast]
    exact .inr ⟨rfl, rfl, rfl, rfl, rfl, rfl, rfl⟩

/-- What fails a timid run fails a run after it. Else that run gathers the same edits, and has no
moves to make. -/
theorem gathered_after_timid (h : s.ledger.mode = .timid) (hv : (s.run d).2.1.SameRequests v)
    (hmoves : v.ledger.moves = (s.run d).2.1.ledger.moves) : v.passFault? d = s.passFault? d ∧
      (s.passFault? d = none → (s.gathered d).Agrees (v.gathered d) ∧ (v.gathered d).ledger.moves = []) := by
  cases hfault : s.passFault? d with
  | none =>
    obtain ⟨-, -, -, -, hnone, hrun⟩ := run_of_timid h hfault
    obtain ⟨hfault', hgathered, hqueued⟩ := (hrun.trans hv).gathered_again
    exact ⟨hfault'.trans hfault, fun _ => ⟨hgathered, hqueued.trans (hmoves.trans hnone)⟩⟩
  | some failure =>
    refine ⟨?_, fun hnone => by cases hnone⟩
    rcases sameRequests_of_passFault hfault with ⟨hrun, hfirst⟩ | hrun
    · obtain ⟨-, hfirst'⟩ := (hrun.trans hv).fresh.firstPass d
      rw [passFault?, hfirst', hfirst]
      rfl
    · exact (hrun.trans hv).gathered_again.1.trans hfault

/-- **A timid run is dry but for the moves.** It leaves the disk as it is. Let the mode be changed
after it and a run be made, and let a run be made in that mode alone. Both fail, and nothing is
changed; or the second run leaves what the lone one does, except that the moves that the timid run
has named have not been made. If it names none, nothing is amiss. -/
theorem timid_run_is_dry (hm : m ≠ .timid) (ht : s.setMode .timid = .ok t)
    (hu : s.setMode m = .ok u) (d : Disk) :
    (t.run d).2.2 = d ∧ ∃ v, (t.run d).2.1.setMode m = .ok v ∧
      ((∃ failure, (u.run d).1 = .error failure ∧ (v.run d).1 = .error failure ∧
          (u.run d).2.2 = d ∧ (v.run d).2.2 = d) ∨
        ∃ dry once again moves, (t.run d).1 = .ok dry ∧ (u.run d).1 = .ok once ∧
          (v.run d).1 = .ok again ∧
          dry.remarks = (moves.map fun m : Move => .wouldMove m.source m.target) ∧
          (u.run d).2.2 = (v.run d).2.2.carryOutAll moves) ∧
      ((∀ dry, (t.run d).1 = .ok dry → dry.remarks = []) → (v.run d).2.2 = (u.run d).2.2) := by
  obtain ⟨htmode, hst, htmoves⟩ := of_setMode ht
  obtain ⟨humode, hsu, humoves⟩ := of_setMode hu
  obtain ⟨hufault, hugathered, huqueued⟩ :=
    (hst.symm.trans hsu).gathered (humoves.trans htmoves.symm) d
  obtain ⟨v, hv⟩ := exists_setMode (s := (t.run d).2.1) rfl m
  obtain ⟨hvmode, hrv, hvmoves⟩ := of_setMode hv
  obtain ⟨hvfault, hvgathered⟩ := gathered_after_timid htmode hrv hvmoves
  cases hfault : t.passFault? d with
  | some failure =>
    obtain ⟨-, htdisk⟩ := run_of_passFault hfault
    obtain ⟨huerror, hudisk⟩ := run_of_passFault (hufault.trans hfault)
    obtain ⟨hverror, hvdisk⟩ := run_of_passFault (hvfault.trans hfault)
    exact ⟨htdisk, v, hv, .inl ⟨failure, huerror, hverror, hudisk, hvdisk⟩,
      fun _ => hvdisk.trans hudisk.symm⟩
  | none =>
    obtain ⟨dry, hdry, hremarks, htdisk, -, -⟩ := run_of_timid htmode hfault
    obtain ⟨hvgathered, hvqueued⟩ := hvgathered hfault
    have hmode := (mode_gathered u d).trans humode
    have hurun := run_of_gathered (hufault.trans hfault)
    have hvrun := run_of_gathered (hvfault.trans hfault)
    refine ⟨htdisk, v, hv, ?_⟩
    -- both enact the same edits, and the second run without the moves
    rcases Ledger.enact_without_moves (hvgathered.changes.trans hugathered.changes.symm)
      (((mode_gathered v d).trans hvmode).trans hmode.symm) hvqueued (hmode.trans_ne hm) d with
      ⟨failure, huerror, hverror⟩ | ⟨huok, hvok, hsame⟩
    · rw [hurun, hvrun, finish_of_error huerror, finish_of_error hverror]
      exact ⟨.inl ⟨failure, rfl, rfl, rfl, rfl⟩, fun _ => rfl⟩
    · rw [hurun, hvrun, finish_of_ok (Prod.ext rfl (Prod.ext rfl huok)),
        finish_of_ok (Prod.ext rfl (Prod.ext rfl hvok))]
      rw [huqueued] at hsame
      refine ⟨.inr ⟨dry, _, _, _, hdry, rfl, rfl, hremarks, hsame⟩,
        fun hsilent => ?_⟩
      have hunmoved : (t.gathered d).ledger.moves = [] :=
        List.map_eq_nil_iff.1 (hremarks.symm.trans (hsilent dry hdry))
      rw [hunmoved] at hsame
      exact hsame.symm

/-! ## A move that is named and forgotten -/

/-- With no files to look at and nothing that follows, a run has nothing to do but the moves that are
queued. -/
theorem run_of_no_paths (hpaths : s.paths = []) (hfollow : s.followUps = []) (d : Disk) :
    s.passFault? d = none ∧ s.SameRequests (s.prepared d) ∧
      (s.ledger.mode ≠ .timid → (∃ report, (s.run d).1 = .ok report) ∧
        (s.run d).2.2 = d.carryOutAll s.ledger.moves) := by
  obtain ⟨hfault, db, -, hprepared, hgathered⟩ := @gathered_of_sources s d [] hfollow
    (by rw [hpaths]; exact .nil)
  refine ⟨hfault, ?_, fun hm => ?_⟩
  · rw [hprepared]
    exact ⟨rfl, rfl, rfl, rfl, rfl, rfl, rfl⟩
  obtain ⟨l, henact⟩ : ∃ l, (s.gathered d).ledger.enact d =
      (l, s.ledger.moves.foldl (Ledger.applyMove s.ledger.mode) (Progress.start d), none) := by
    rw [hgathered]
    exact ⟨_, rfl⟩
  rw [run_of_gathered hfault, finish_of_ok henact]
  exact ⟨⟨_, rfl⟩, congrArg Progress.disk (Ledger.foldl_applyMove_eq hm _ _)⟩

/-- A new name for the file of `oneFile`. -/
def oneMove : Move :=
  ⟨⟨"/a"⟩, ⟨"/b"⟩⟩

theorem carryOut_oneFile (text : String) :
    ((oneFile text).carryOut oneMove).1 = ⟨[], [(["b"], .file (.text text) true)]⟩ := by
  have hparent : (⟨"/b"⟩ : Path).parent? = some ⟨"/"⟩ := rfl
  have hmake : (oneFile text).makeDirectories ⟨"/"⟩ = (oneFile text, none) := by
    simp [Disk.makeDirectories, Disk.makeUpTo, Disk.ensureDirectory, Disk.makeDirectory,
      place_oneFile, Disk.hasDirectory, find_oneFile]
  have hmove : (oneFile text).move ⟨"/a"⟩ ⟨"/b"⟩ = .ok ⟨[], [(["b"], .file (.text text) true)]⟩ := by
    have hname : Disk.endsInName ⟨"/a"⟩ = true ∧ Disk.endsInName ⟨"/b"⟩ = true := by decide +kernel
    simp only [Disk.move, place_oneFile, hname]
    rfl
  simp [Disk.carryOut, oneMove, Disk.hasEntry, find_oneFile, hparent, hmake, hmove]

/-- The move has been asked for. -/
def moving : Session :=
  Session.new.renameFile (oneFile "old") ⟨"/a"⟩ ⟨"/b"⟩

theorem moving_eq : moving = { Session.new with
    ledger := { Ledger.new with moves := [oneMove] }
    proposers := [.includes ⟨"/a"⟩ ⟨"/b"⟩]
    requests := [.renameFile ⟨"/a"⟩ ⟨"/b"⟩] } := by
  have hpaths : Path.absoluteFrom (oneFile "old").workingDirectory ⟨"/a"⟩ = ⟨"/a"⟩ ∧
      Path.absoluteFrom (oneFile "old").workingDirectory ⟨"/b"⟩ = ⟨"/b"⟩ := ⟨rfl, rfl⟩
  simp only [moving, renameFile, queueMove, hpaths, Disk.hasEntry, Disk.isLocked, find_oneFile]
  rfl

theorem moving_fields : moving.paths = [] ∧ moving.followUps = [] ∧
    moving.ledger.frozen = false ∧ moving.ledger.moves = [oneMove] := by
  rw [moving_eq]
  exact ⟨rfl, rfl, rfl, rfl⟩

/-- The move is named by the timid run and is not made by the run after it. The file would have been
moved by that run alone. -/
theorem timid_run_is_dry_oneFile : ∃ t u v dry moves, Mode.conservative ≠ .timid ∧
    moving.setMode .timid = .ok t ∧ moving.setMode .conservative = .ok u ∧
    (t.run (oneFile "old")).2.2 = oneFile "old" ∧
    (t.run (oneFile "old")).2.1.setMode .conservative = .ok v ∧
    (t.run (oneFile "old")).1 = .ok dry ∧
    dry.remarks = (moves.map fun m : Move => .wouldMove m.source m.target) ∧
    (u.run (oneFile "old")).2.2 = (v.run (oneFile "old")).2.2.carryOutAll moves := by
  obtain ⟨hpaths, hfollow, hfrozen, -⟩ := moving_fields
  obtain ⟨t, ht⟩ := exists_setMode hfrozen .timid
  obtain ⟨u, hu⟩ := exists_setMode hfrozen .conservative
  obtain ⟨hdisk, v, hv, hcases, -⟩ := timid_run_is_dry (by decide) ht hu (oneFile "old")
  -- the lone run does not fail
  obtain ⟨humode, hmu, -⟩ := of_setMode hu
  obtain ⟨-, -, hurun⟩ := run_of_no_paths (hmu.paths.trans hpaths) (hmu.followUps.trans hfollow)
    (oneFile "old")
  obtain ⟨⟨report, hreport⟩, -⟩ := hurun (by rw [humode]; decide)
  rcases hcases with ⟨failure, hfailure, -⟩ | ⟨dry, -, -, moves, hdry, -, -, hremarks, hsame⟩
  · rw [hreport] at hfailure
    cases hfailure
  · exact ⟨t, u, v, dry, moves, by decide, ht, hu, hdisk, hv, hdry, hremarks, hsame⟩

/-- **A run after a timid one need not do what it does alone**: alone, it moves the file. -/
theorem timid_run_forgets_move : ∃ t u v, moving.setMode .timid = .ok t ∧
    moving.setMode .conservative = .ok u ∧
    (t.run (oneFile "old")).2.1.setMode .conservative = .ok v ∧
    (u.run (oneFile "old")).2.2 = ⟨[], [(["b"], .file (.text "old") true)]⟩ ∧
    (v.run (oneFile "old")).2.2 = ⟨[], [(["a"], .file (.text "old") true)]⟩ := by
  obtain ⟨hpaths, hfollow, hfrozen, hmoves⟩ := moving_fields
  obtain ⟨t, ht⟩ := exists_setMode hfrozen .timid
  obtain ⟨u, hu⟩ := exists_setMode hfrozen .conservative
  obtain ⟨v, hv⟩ := exists_setMode (s := (t.run (oneFile "old")).2.1) rfl .conservative
  obtain ⟨htmode, hmt, -⟩ := of_setMode ht
  obtain ⟨humode, hmu, humoves⟩ := of_setMode hu
  obtain ⟨hvmode, hrv, hvmoves⟩ := of_setMode hv
  refine ⟨t, u, v, ht, hu, hv, ?_, ?_⟩
  · obtain ⟨-, -, hurun⟩ := run_of_no_paths (hmu.paths.trans hpaths) (hmu.followUps.trans hfollow)
      (oneFile "old")
    rw [(hurun (by rw [humode]; decide)).2, humoves, hmoves]
    exact carryOut_oneFile "old"
  · obtain ⟨hfault, hprepared, -⟩ := run_of_no_paths (hmt.paths.trans hpaths)
      (hmt.followUps.trans hfollow) (oneFile "old")
    obtain ⟨-, -, -, -, hnone, htr⟩ := run_of_timid htmode hfault
    have hmv := (hmt.trans hprepared).trans (htr.trans hrv)
    obtain ⟨-, -, hvrun⟩ := run_of_no_paths (hmv.paths.trans hpaths) (hmv.followUps.trans hfollow)
      (oneFile "old")
    rw [(hvrun (by rw [hvmode]; decide)).2, hvmoves, hnone]
    rfl

end Session

end PhpRename
