import PhpRename.Proofs.Ledger.Account
import PhpRename.Proofs.Session.Failure
import PhpRename.Proofs.Session.Prepared

/-!
# Inclusions in files that move

A file that moves to another directory takes its include statements along, and what these name may
not be found from there. Of each inclusion that the first pass has recorded the user is told, unless
what is included moves as well. Then nothing is said, and the edit that such a move proposes is for
the old place of the file that includes it.

* `Session.checkInclusion_mem_iff`: of which inclusions the user is told.
* `Session.moved_inclusions_told`: this for a whole run, and for the files that it has read.
-/

namespace PhpRename

open Php

/-- The remark is about an inclusion in a file that moves. -/
def Remark.isCheck : Remark → Bool
  | .checkInclusion .. => true
  | _ => false

theorem Remark.isCheck_of_refused? {r : Remark} {file : Path} (h : r.refused? = some file) :
    r.isCheck = false := by
  cases r with
  | checkInclusion source included target => cases h
  | _ => rfl

theorem Remark.isCheck_of_isOfMove {r : Remark} (h : r.isOfMove = true) : r.isCheck = false := by
  cases r with
  | checkInclusion source included target => cases h
  | _ => rfl

/-- Nothing that is said when a ledger is enacted is about an inclusion. -/
theorem Ledger.isCheck_of_enact {l l' : Ledger} {d : Disk} {done : Progress}
    (h : l.enact d = (l', done, none)) : ∀ r ∈ done.report.remarks, r.isCheck = false := by
  obtain ⟨-, rfl, -⟩ := enact_eq_ok h
  have hedited : ∀ r ∈ (l.edited d).report.remarks, r.isCheck = false := by
    refine List.foldlRecOn
      (motive := fun p : Progress => ∀ r ∈ p.report.remarks, r.isCheck = false) _ _ (by simp [Progress.start])
      fun p hp c _ => ?_
    rw [applyChoice]
    dsimp only
    split
    · exact hp
    split
    · rename_i x hedit
      intro r hr
      rcases List.mem_append.1 hr with hr | hr
      · exact hp r hr
      · rw [List.mem_singleton.1 hr]
        exact Remark.isCheck_of_refused? (refused?_of_edit hedit)
    · exact hp
  obtain ⟨made, said, hreport, hsaid⟩ := exists_said l.mode l.moves (l.edited d)
  rw [hreport]
  intro r hr
  rcases List.mem_append.1 hr with hr | hr
  · exact hedited r hr
  · exact Remark.isCheck_of_isOfMove (hsaid r hr)

namespace Session

variable {s : Session} {d : Disk} {source included target : Path}

theorem includedBy_of_isEmpty {db : Symbols} (h : db.isEmpty = true) (file : Path) :
    db.includedBy file = [] := by
  rw [Symbols.isEmpty, Bool.and_eq_true, List.isEmpty_iff] at h
  rw [Symbols.includedBy, h.2]
  rfl

/-- **The user is told of an inclusion** if the file that includes moves to another directory and
the file that is included does not move. -/
theorem checkInclusion_mem_iff : .checkInclusion source included target ∈ s.inclusionsToCheck ↔
    ⟨source, target⟩ ∈ s.ledger.moves ∧ stays ⟨source, target⟩ = false ∧
      included ∈ s.db.includedBy source ∧ ∀ n ∈ s.ledger.moves, (n.source == included) = false := by
  have hmoving : (!(s.ledger.moves.map Move.source).contains included) = true ↔
      ∀ n ∈ s.ledger.moves, (n.source == included) = false := by
    rw [Bool.not_eq_true', ← Bool.not_eq_true, List.contains_iff_exists_mem_beq]
    simp only [List.mem_map, exists_exists_and_eq_and, not_exists, not_and, Bool.not_eq_true]
    have hcomm : ∀ p q : Path, (p == q) = (q == p) := fun p q => by
      rw [Bool.eq_iff_iff, Path.beq_iff, Path.beq_iff, eq_comm]
    simp only [hcomm included]
  rw [inclusionsToCheck]
  split
  · rename_i hempty
    simp [includedBy_of_isEmpty hempty]
  · dsimp only
    simp only [List.mem_flatMap, List.mem_map, List.mem_filter]
    constructor
    · rintro ⟨m, ⟨hm, hstays⟩, p, ⟨hp, hp'⟩, he⟩
      cases he
      exact ⟨hm, by simpa using hstays, hp, hmoving.1 hp'⟩
    · rintro ⟨hm, hstays, hp, hp'⟩
      exact ⟨_, ⟨hm, by simpa using hstays⟩, included, ⟨hp, hmoving.2 hp'⟩, rfl⟩

/-- What follows from a first pass tells nothing of inclusions. -/
theorem remarks_settle (s : Session) (d : Disk) :
    ∃ said, (s.settle d).remarks = s.remarks ++ said ∧ ∀ r ∈ said, r.isCheck = false := by
  have htell : ∀ (t : Session) r, r.isCheck = false →
      (∃ said, t.remarks = s.remarks ++ said ∧ ∀ x ∈ said, x.isCheck = false) →
      ∃ said, (t.tell r).remarks = s.remarks ++ said ∧ ∀ x ∈ said, x.isCheck = false := by
    rintro t r hr ⟨said, ht, hsaid⟩
    refine ⟨said ++ [r], by rw [tell, ht, List.append_assoc], fun x hx => ?_⟩
    rcases List.mem_append.1 hx with hx | hx
    · exact hsaid x hx
    · rwa [List.mem_singleton.1 hx]
  refine settle_induction
    (P := fun t => ∃ said, t.remarks = s.remarks ++ said ∧ ∀ r ∈ said, r.isCheck = false)
    (fun t cls old new ht => ?_) (fun t old new ht => ?_) ⟨[], by simp⟩
  · unfold renameMethod
    split <;> exact ht
  · unfold renameFile queueMove
    dsimp only
    split
    · exact ht
    split
    · exact htell t (.missing old) rfl ht
    split
    · exact htell t (.locked old) rfl ht
    · exact ht

theorem isCheck_of_summary (l : Ledger) (report : Report) :
    ∀ r ∈ summary l report, r.isCheck = false := by
  intro r hr
  rw [summary] at hr
  rcases List.mem_cons.1 hr with rfl | hr
  · rfl
  split at hr
  · cases hr
  rcases List.mem_cons.1 hr with rfl | hr
  · rfl
  obtain ⟨⟨file, lines⟩, -, hr⟩ := List.mem_flatMap.1 hr
  obtain ⟨n, -, rfl⟩ := List.mem_map.1 hr
  rfl

theorem remarks_gathered (s : Session) (d : Disk) :
    ∃ said, (s.gathered d).remarks = s.remarks ++ said ∧ ∀ r ∈ said, r.isCheck = false := by
  have hfirst : (s.fresh.firstPass d).1.remarks = s.remarks := by
    unfold firstPass
    split <;> rfl
  rw [← hfirst]
  exact remarks_settle ..

/-- The include statements of the files that the first pass has read are recorded. -/
theorem records_of_target? (hneeds : s.needsFacts = true) (hfault : s.passFault? d = none)
    {file : Path} {content : String} (hfile : file ∈ s.selection.files d s.paths)
    (hread : d.read file = .ok content) {site : Site}
    (hsite : site ∈ Site.all (Source.read file content)) {t : Target} (ht : site.target? = some t) :
    (s.gathered d).db.Records file (t.resolve file) := by
  have hfirst : s.fresh.firstPass d = s.fresh.pass d observers false := if_pos hneeds
  obtain ⟨hnone, -⟩ := Option.or_eq_none_iff.1 hfault
  rw [hfirst] at hnone
  rw [db_gathered, hfirst]
  exact Survey.records_of_target? (by simp [observers, Observer.all]) hfile hread hsite ht hnone

/-- A run that succeeds has enacted its ledger. -/
theorem exists_enact_of_run {report : Report} (h : (s.run d).1 = .ok report) :
    s.passFault? d = none ∧ ∃ l done, (s.gathered d).ledger.enact d = (l, done, none) := by
  cases hfault : s.passFault? d with
  | some failure =>
    rw [(run_of_passFault hfault).1] at h
    cases h
  | none =>
    refine ⟨rfl, ?_⟩
    obtain ⟨l, done, failure?, henact⟩ : ∃ l done failure?,
        (s.gathered d).ledger.enact d = (l, done, failure?) := ⟨_, _, _, rfl⟩
    cases failure? with
    | none => exact ⟨l, done, henact⟩
    | some failure =>
      rw [run_of_gathered hfault, finish_of_error (congrArg (·.2.2) henact)] at h
      cases h

/-- **Of the inclusions in a file that moves the user is told, unless their targets move as well.**
In a run that succeeds, whatever its mode, let a move lead to another directory. Of an inclusion that
has been recorded of the file the user is told, if and only if no move takes its target away. If a
first pass was made, that concerns each include statement of the file: the user is told of what it
names, or that moves too. -/
theorem moved_inclusions_told {report : Report} (h : (s.run d).1 = .ok report) :
    ∃ said, (s.run d).2.1.remarks = s.remarks ++ said ∧
      ∀ m ∈ (s.gathered d).ledger.moves, stays m = false →
        (∀ p ∈ (s.run d).2.1.db.includedBy m.source, .checkInclusion m.source p m.target ∈ said ↔
          ∀ n ∈ (s.gathered d).ledger.moves, (n.source == p) = false) ∧
        (s.needsFacts = true → ∀ file ∈ s.selection.files d s.paths, (m.source == file) = true →
          ∀ content, d.read file = .ok content →
          ∀ site ∈ Site.all (Source.read file content), ∀ t, site.target? = some t →
            (∃ p, (p == t.resolve file) = true ∧ .checkInclusion m.source p m.target ∈ said) ∨
              ∃ n ∈ (s.gathered d).ledger.moves, (n.source == t.resolve file) = true) := by
  obtain ⟨hfault, l, done, henact⟩ := exists_enact_of_run h
  obtain ⟨before, hbefore, hquiet⟩ := remarks_gathered s d
  rw [run_of_gathered hfault, finish_of_ok henact]
  refine ⟨before ++ (s.gathered d).inclusionsToCheck ++
    (done.report.remarks ++ summary l done.report), ?_, fun m hm hstays => ?_⟩
  · dsimp only [thawed]
    rw [hbefore]
    simp only [List.append_assoc]
  -- nothing else that is said is about an inclusion
  have hsaid : ∀ p, .checkInclusion m.source p m.target ∈ before ++ (s.gathered d).inclusionsToCheck ++
      (done.report.remarks ++ summary l done.report) ↔
      .checkInclusion m.source p m.target ∈ (s.gathered d).inclusionsToCheck := by
    intro p
    have hnot : ∀ rs : List Remark, (∀ r ∈ rs, r.isCheck = false) →
        .checkInclusion m.source p m.target ∉ rs := fun rs hrs hmem => by cases hrs _ hmem
    simp only [List.mem_append, hnot _ hquiet, hnot _ (Ledger.isCheck_of_enact henact),
      hnot _ (isCheck_of_summary l done.report), false_or, or_false]
  have htold : ∀ p ∈ (s.gathered d).db.includedBy m.source,
      .checkInclusion m.source p m.target ∈ before ++ (s.gathered d).inclusionsToCheck ++
        (done.report.remarks ++ summary l done.report) ↔
      ∀ n ∈ (s.gathered d).ledger.moves, (n.source == p) = false := by
    intro p hp
    rw [hsaid, checkInclusion_mem_iff]
    exact ⟨fun h => h.2.2.2, fun h => ⟨hm, hstays, hp, h⟩⟩
  refine ⟨htold, fun hneeds file hfile hsource content hread site hsite t ht => ?_⟩
  obtain ⟨i, hi, hi', htarget⟩ := records_of_target? hneeds hfault hfile hread hsite ht
  have hp : i.target ∈ (s.gathered d).db.includedBy m.source :=
    List.mem_map_of_mem (List.mem_filter.2 ⟨hi, Path.beq_of_beq_of_beq hi' hsource⟩)
  by_cases hmoves : ∀ n ∈ (s.gathered d).ledger.moves, (n.source == i.target) = false
  · exact .inl ⟨i.target, htarget, (htold _ hp).2 hmoves⟩
  · simp only [not_forall, Bool.not_eq_false, exists_prop] at hmoves
    obtain ⟨n, hn, hn'⟩ := hmoves
    exact .inr ⟨n, hn, Path.beq_iff.2 ((Path.beq_iff.1 hn').trans (Path.beq_iff.1 htarget))⟩

/-- The file includes another one and is to move away from it. -/
def leaving : Session :=
  ((Session.new.addPath (oneFile "<?php require 'b';") ⟨"/a"⟩).renameMethod "C" "m" "n"
    false).renameFile (oneFile "<?php require 'b';") ⟨"/a"⟩ ⟨"/d/a"⟩

theorem leaving_eq : leaving = { Session.new with
    paths := [⟨"/a"⟩]
    needsFacts := true
    methods := [("C", "m")]
    ledger := { Ledger.new with moves := [⟨⟨"/a"⟩, ⟨"/d/a"⟩⟩] }
    proposers := Proposer.ofMethod "C" "m" "n" ++ [.includes ⟨"/a"⟩ ⟨"/d/a"⟩]
    requests := [.renameMethod "C" "m" "n" false, .renameFile ⟨"/a"⟩ ⟨"/d/a"⟩] } := by
  have hpaths : ∀ text, Path.absoluteFrom (oneFile text).workingDirectory ⟨"/a"⟩ = ⟨"/a"⟩ ∧
      Path.absoluteFrom (oneFile text).workingDirectory ⟨"/d/a"⟩ = ⟨"/d/a"⟩ := fun _ => ⟨rfl, rfl⟩
  simp only [leaving, addPath, renameFile, queueMove, hpaths, Disk.hasEntry, Disk.isLocked,
    find_oneFile]
  rfl

theorem files_leaving :
    leaving.selection.files (oneFile "<?php require 'b';") leaving.paths = [⟨"/a"⟩] := by
  have hpath : ∀ text, Path.absoluteFrom (oneFile text).workingDirectory ⟨"/a"⟩ = ⟨"/a"⟩ :=
    fun _ => rfl
  rw [leaving_eq]
  simp only [Selection.files, List.flatMap_cons, List.flatMap_nil, Selection.filesAt, hpath,
    find_oneFile]
  rfl

/-- What is gathered of it: no edits, and the one inclusion. -/
theorem gathered_leaving : leaving.passFault? (oneFile "<?php require 'b';") = none ∧
    ((leaving.gathered (oneFile "<?php require 'b';")).db.includedBy ⟨"/a"⟩) = [⟨"/b"⟩] ∧
    (leaving.gathered (oneFile "<?php require 'b';")).ledger = leaving.fresh.ledger := by
  have hread : (oneFile "<?php require 'b';").read ⟨"/a"⟩ = .ok "<?php require 'b';" := by
    rw [Disk.read, (find_oneFile _).1]
  obtain ⟨hfault, db, hdb, -, hgathered⟩ := @gathered_of_sources leaving _
    [Source.read ⟨"/a"⟩ "<?php require 'b';"] (by rw [leaving_eq]; rfl)
    (by rw [files_leaving]; exact .cons ⟨_, hread, rfl⟩ .nil)
  have hknown : db = (Findings.ofSource observers Symbols.empty
      (Source.read ⟨"/a"⟩ "<?php require 'b';")).db := hdb (by rw [leaving_eq])
  have hnone : [Source.read ⟨"/a"⟩ "<?php require 'b';"].flatMap
      (Proposer.proposals leaving.proposers db) = [] := by
    rw [leaving_eq, hknown]
    exact List.isEmpty_iff.1 (by decide +kernel)
  have hincluded : (db.includedBy ⟨"/a"⟩).map Path.spelling = ["/b"] := by
    rw [hknown]
    decide +kernel
  obtain ⟨p, hp, hspelling⟩ := List.map_eq_singleton_iff.1 hincluded
  obtain rfl : p = ⟨"/b"⟩ := congrArg Path.mk hspelling
  rw [hnone] at hgathered
  refine ⟨hfault, ?_, ?_⟩
  · rw [hgathered]
    exact hp
  · rw [hgathered]
    rfl

/-- The user is told of the file that is included. -/
theorem moved_inclusions_told_leaving : ∃ report said,
    (leaving.run (oneFile "<?php require 'b';")).1 = .ok report ∧
    (leaving.run (oneFile "<?php require 'b';")).2.1.remarks = leaving.remarks ++ said ∧
    .checkInclusion ⟨"/a"⟩ ⟨"/b"⟩ ⟨"/d/a"⟩ ∈ said := by
  obtain ⟨hfault, hincluded, hledger⟩ := gathered_leaving
  have hmoves : leaving.fresh.ledger.moves = [⟨⟨"/a"⟩, ⟨"/d/a"⟩⟩] := by rw [leaving_eq]; rfl
  obtain ⟨l, done, henact⟩ : ∃ l done,
      (leaving.gathered (oneFile "<?php require 'b';")).ledger.enact
        (oneFile "<?php require 'b';") = (l, done, none) := by
    rw [hledger]
    exact ⟨_, _, rfl⟩
  have hrun := run_of_gathered hfault
  rw [finish_of_ok henact] at hrun
  obtain ⟨said, hremarks, htold⟩ := moved_inclusions_told (congrArg Prod.fst hrun)
  rw [hledger, hmoves] at htold
  refine ⟨done.report, said, congrArg Prod.fst hrun, hremarks, ?_⟩
  refine ((htold _ List.mem_cons_self (by decide)).1 ⟨"/b"⟩ ?_).2 (by decide)
  rw [hrun]
  exact hincluded ▸ List.mem_cons_self

/-- **Files that move together are not told of, and part.** -/
theorem moved_together_misled :
    let source := Source.read ⟨"/a/f"⟩ "<?php require 't';"
    let db := (Findings.ofSource observers Symbols.empty source).db
    let moves : List Move := [⟨⟨"/a/f"⟩, ⟨"/x/y/f"⟩⟩, ⟨⟨"/a/t"⟩, ⟨"/b/t"⟩⟩]
    (db.includedBy ⟨"/a/f"⟩).map Path.spelling = ["/a/t"] ∧
    { Session.new with db, ledger := { Ledger.new with moves } }.inclusionsToCheck.length = 0 ∧
    (Proposer.proposals (moves.map fun m => .includes m.source m.target) db source).map
      Edit.replacement = ["../b/t"] ∧
    (Path.resolve ⟨"/a/f"⟩ "../b/t").spelling = "/b/t" ∧
    (Path.resolve ⟨"/x/y/f"⟩ "../b/t").spelling = "/x/b/t" := by
  decide +kernel

end Session

end PhpRename
