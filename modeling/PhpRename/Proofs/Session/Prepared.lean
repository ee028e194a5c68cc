import PhpRename.Proofs.Disk.Rewrite
import PhpRename.Proofs.Session.Run
import PhpRename.Proofs.Survey.Inclusions

/-!
# What a run is prepared to do

A run over a disk first finds out what there is to do: a first pass learns what is needed, and what
follows from it is asked for. The session is then *prepared*; it knows all requests, and the moves
that the run will make are queued. The edits are gathered last.

Requests are asked for once. So there is nothing to find out for a session that has been prepared
before: it is prepared already.

* `Session.prepared`, `Session.gathered`: the session when it has been prepared, and when the edits
  have been gathered too.
* `Session.run_of_passFault`, `Session.run_of_gathered`: what a run comes to.
* `Session.settle_settle`, `Session.prepared_prepared`: a second time changes nothing.
* `Session.gathered_of_sources`: what is gathered when all files can be read.
-/

namespace PhpRename.Session

variable {s t : Session} {d : Disk} {f : FollowUp}

/-- The session once a run over the disk has found out what there is to do. -/
def prepared (s : Session) (d : Disk) : Session :=
  (s.fresh.firstPass d).1.settle d

/-- The session once a run over the disk has gathered the edits. -/
def gathered (s : Session) (d : Disk) : Session :=
  ((s.prepared d).lastPass d).1

/-- The settings of the session can change. -/
def thawed (s : Session) : Session :=
  { s with ledger := s.ledger.thaw }

/-! ## Runs -/

/-- Why a pass of a run over the disk fails. -/
def passFault? (s : Session) (d : Disk) : Option Failure :=
  (s.fresh.firstPass d).2.or ((s.prepared d).lastPass d).2

theorem run_of_first {failure : Failure} (h : (s.fresh.firstPass d).2 = some failure) :
    s.run d = (.error failure, (s.fresh.firstPass d).1.thawed, d) := by
  rw [run, ← fresh, runPasses_of_first (Prod.ext rfl h)]
  rfl

theorem run_of_last {failure : Failure} (hfirst : (s.fresh.firstPass d).2 = none)
    (h : ((s.prepared d).lastPass d).2 = some failure) :
    s.run d = (.error failure, (s.gathered d).thawed, d) := by
  rw [run, ← fresh, runPasses_of_last (Prod.ext rfl hfirst) (Prod.ext rfl h)]
  rfl

theorem run_of_passFault {failure : Failure} (h : s.passFault? d = some failure) :
    (s.run d).1 = .error failure ∧ (s.run d).2.2 = d := by
  rcases Option.or_eq_some_iff.1 h with hfirst | ⟨hfirst, hlast⟩
  · rw [run_of_first hfirst]
    exact ⟨rfl, rfl⟩
  · rw [run_of_last hfirst hlast]
    exact ⟨rfl, rfl⟩

/-- A run whose passes do not fail enacts what it has gathered. -/
theorem run_of_gathered (h : s.passFault? d = none) :
    s.run d = (((s.gathered d).finish d).1, ((s.gathered d).finish d).2.1.thawed,
      ((s.gathered d).finish d).2.2) := by
  obtain ⟨hfirst, hlast⟩ := Option.or_eq_none_iff.1 h
  rw [run, ← fresh, runPasses_of_finish (Prod.ext rfl hfirst) (Prod.ext rfl hlast)]
  rfl

theorem finish_of_ok {l : Ledger} {done : Progress} (h : s.ledger.enact d = (l, done, none)) :
    s.finish d = (.ok done.report, { s with
      ledger := l
      remarks := s.remarks ++ s.inclusionsToCheck ++ (done.report.remarks ++ summary l done.report) },
      done.disk) := by
  rw [finish, h]
  dsimp only
  rw [List.append_assoc (s.remarks ++ s.inclusionsToCheck)]

theorem ledger_pass (s : Session) (d : Disk) (listeners : List Listener) (keep : Bool) :
    (s.pass d listeners keep).1.ledger =
      { s.ledger with changes := (s.pass d listeners keep).1.ledger.changes } :=
  Survey.ledger_lookAll_eq listeners keep d _ _

theorem ledger_firstPass (s : Session) (d : Disk) : (s.firstPass d).1.ledger = s.ledger := by
  unfold firstPass
  split
  · exact Survey.ledger_lookAll ..
  · rfl

/-- What follows from a first pass queues moves, and does nothing else to the ledger. -/
theorem ledger_settle (s : Session) (d : Disk) :
    (s.settle d).ledger = { s.ledger with moves := (s.settle d).ledger.moves } := by
  refine settle_induction (P := fun t => t.ledger = { s.ledger with moves := t.ledger.moves })
    (fun t cls old new ht => ?_) (fun t old new ht => ?_) rfl
  · unfold renameMethod
    split <;> exact ht
  · unfold renameFile queueMove
    dsimp only
    split
    · exact ht
    split
    · exact ht
    split
    · exact ht
    · dsimp only
      rw [Ledger.addMove]
      split
      · exact ht
      · rw [ht]

/-- A session that is prepared has gathered nothing yet but moves. -/
theorem ledger_prepared (s : Session) (d : Disk) :
    (s.prepared d).ledger = { s.fresh.ledger with moves := (s.prepared d).ledger.moves } := by
  conv_lhs => rw [prepared, ledger_settle, ledger_firstPass]
  rfl

/-- The edits are gathered with the moves queued, in the mode that the session has. -/
theorem ledger_gathered (s : Session) (d : Disk) :
    (s.gathered d).ledger = { s.fresh.ledger with
      moves := (s.prepared d).ledger.moves
      changes := (s.gathered d).ledger.changes } := by
  conv_lhs => rw [gathered, lastPass, ledger_pass, ledger_prepared]
  rfl

theorem moves_gathered (s : Session) (d : Disk) :
    (s.gathered d).ledger.moves = (s.prepared d).ledger.moves := by
  rw [ledger_gathered]

/-! ## Nothing is asked for twice -/

theorem followUps_settle (s : Session) (d : Disk) : (s.settle d).followUps = s.followUps := by
  refine settle_induction (P := fun t => t.followUps = s.followUps) (fun t cls old new ht => ?_)
    (fun t old new ht => ?_) rfl
  · unfold renameMethod
    split
    · exact ht
    · exact (List.append_nil _).trans ht
  · unfold renameFile queueMove
    dsimp only
    repeat' split
    all_goals exact ht

/-- All that the follow-up wants has been asked for. -/
def Taken (d : Disk) (s : Session) : FollowUp → Prop
  | .descendants cls old _ => ∀ child ∈ s.db.descendants cls, (child, old) ∈ s.methods
  | .classFile old new => ∀ c, s.db.class? old = some c → ∀ target,
      Rename.classFileTarget? c.file old new s.selection.extensions.enabled = some target →
        s.requests.contains (.renameFile (Path.absoluteFrom d.workingDirectory c.file)
          (Path.absoluteFrom d.workingDirectory target)) = true

/-- The second session knows the same of the files, and has taken all requests of the first. -/
structure Extends (s t : Session) : Prop where
  selection : t.selection = s.selection
  db : t.db = s.db
  methods : s.methods ⊆ t.methods
  requests : s.requests ⊆ t.requests

theorem Extends.refl (s : Session) : s.Extends s :=
  ⟨rfl, rfl, List.Subset.refl _, List.Subset.refl _⟩

theorem extends_renameMethod (s : Session) (cls old new : String) (inherited : Bool) :
    s.Extends (s.renameMethod cls old new inherited) := by
  unfold renameMethod
  split
  · exact Extends.refl s
  · exact ⟨rfl, rfl, List.subset_cons_self .., List.subset_append_left ..⟩

theorem extends_renameFile (s : Session) (d : Disk) (old new : Path) :
    s.Extends (s.renameFile d old new) := by
  unfold renameFile queueMove
  dsimp only
  split
  · exact Extends.refl s
  repeat' split
  all_goals exact ⟨rfl, rfl, List.Subset.refl _, List.subset_append_left ..⟩

theorem Extends.trans {u : Session} (h : s.Extends t) (h' : t.Extends u) : s.Extends u :=
  ⟨h'.selection.trans h.selection, h'.db.trans h.db, List.Subset.trans h.methods h'.methods,
    List.Subset.trans h.requests h'.requests⟩

theorem extends_follow (d : Disk) (s : Session) (f : FollowUp) : s.Extends (follow d s f) :=
  follow_induction (P := s.Extends)
    (fun t cls old new h => h.trans (extends_renameMethod t cls old new false))
    (fun t old new h => h.trans (extends_renameFile t d old new)) f (Extends.refl s)

theorem extends_settle (s : Session) (d : Disk) : s.Extends (s.settle d) :=
  settle_induction (P := s.Extends)
    (fun t cls old new h => h.trans (extends_renameMethod t cls old new false))
    (fun t old new h => h.trans (extends_renameFile t d old new)) (Extends.refl s)

theorem Taken.mono (h : Taken d s f) (he : s.Extends t) : Taken d t f := by
  cases f with
  | descendants cls old new =>
    intro child hchild
    rw [he.db] at hchild
    exact he.methods (h child hchild)
  | classFile old new =>
    intro c hc target htarget
    rw [he.db] at hc
    rw [he.selection] at htarget
    obtain ⟨r, hr, heq⟩ := List.contains_iff_exists_mem_beq.1 (h c hc target htarget)
    exact List.contains_iff_exists_mem_beq.2 ⟨r, he.requests hr, heq⟩

/-- What has been asked for is not asked for again. -/
theorem follow_of_taken (h : Taken d s f) : follow d s f = s := by
  cases f with
  | descendants cls old new =>
    rw [follow]
    refine List.foldlRecOn (motive := fun t => t = s) _ _ rfl fun t ht child hchild => ?_
    rw [ht, renameMethod, if_pos (List.contains_iff_mem.2 (h child hchild))]
  | classFile old new =>
    rw [follow]
    split
    · rfl
    rename_i c hc
    split
    · rfl
    rename_i target htarget
    rw [renameFile, if_pos (h c hc target htarget)]

theorem mem_methods_renameMethod (s : Session) (cls old new : String) (inherited : Bool) :
    (cls, old) ∈ (s.renameMethod cls old new inherited).methods := by
  unfold renameMethod
  split
  · rename_i h
    exact List.contains_iff_mem.1 h
  · exact List.mem_cons_self

theorem contains_requests_renameFile (s : Session) (d : Disk) (old new : Path) :
    (s.renameFile d old new).requests.contains
      (.renameFile (Path.absoluteFrom d.workingDirectory old)
        (Path.absoluteFrom d.workingDirectory new)) = true := by
  have hself : ∀ p q : Path, (Request.renameFile p q == .renameFile p q) = true := by
    intro p q
    exact (Bool.and_eq_true ..).mpr ⟨Path.beq_iff.2 rfl, Path.beq_iff.2 rfl⟩
  unfold renameFile
  dsimp only
  split
  · assumption
  · exact List.contains_iff_exists_mem_beq.2 ⟨_, List.mem_append_right _ List.mem_cons_self, hself ..⟩

theorem taken_follow (d : Disk) (s : Session) (f : FollowUp) : Taken d (follow d s f) f := by
  have hdb := (extends_follow d s f).db
  have hselection := (extends_follow d s f).selection
  cases f with
  | descendants cls old new =>
    intro child hchild
    rw [hdb] at hchild
    exact List.foldl_of_mem (P := fun t : Session => (child, old) ∈ t.methods) hchild
      (fun t => mem_methods_renameMethod t child old new false)
      (fun t ht next _ => (extends_renameMethod t next old new false).methods ht) s
  | classFile old new =>
    intro c hc target htarget
    rw [hdb] at hc
    rw [hselection] at htarget
    rw [follow, hc]
    dsimp only
    rw [htarget]
    exact contains_requests_renameFile s d c.file target

theorem taken_settle (s : Session) (d : Disk) : ∀ f ∈ s.followUps, Taken d (s.settle d) f := by
  intro f hf
  exact List.foldl_of_mem (P := fun t => Taken d t f) hf (fun t => taken_follow d t f)
    (fun t ht next _ => ht.mono (extends_follow d t next)) s

theorem settle_of_taken (h : ∀ f ∈ s.followUps, Taken d s f) : s.settle d = s := by
  rw [settle]
  refine List.foldlRecOn (motive := fun t => t = s) _ _ rfl fun t ht f hf => ?_
  rw [ht, follow_of_taken (h f hf)]

/-- **Follow-ups are taken care of once.** -/
theorem settle_settle (s : Session) (d : Disk) : (s.settle d).settle d = s.settle d := by
  refine settle_of_taken fun f hf => ?_
  rw [followUps_settle] at hf
  exact taken_settle s d f hf

theorem descendants_empty (name : String) : Symbols.empty.descendants name = [] := rfl

/-- Where nothing is known, nothing follows. -/
theorem settle_of_unknown (h : s.db = Symbols.empty) : s.settle d = s := by
  refine settle_of_taken fun f _ => ?_
  cases f with
  | descendants cls old new =>
    intro child hchild
    rw [h, descendants_empty] at hchild
    cases hchild
  | classFile old new =>
    intro c hc
    rw [h] at hc
    cases hc

/-! ## Nothing is found out twice -/

theorem pass_congr (h : s.Keeps t) (hdb : t.db = s.db) (d : Disk) (listeners : List Listener)
    (keep : Bool) : (t.pass d listeners keep).1.db = (s.pass d listeners keep).1.db ∧
      (t.pass d listeners keep).1.ledger.changes = (s.pass d listeners keep).1.ledger.changes ∧
      (t.pass d listeners keep).2 = (s.pass d listeners keep).2 := by
  unfold pass Survey.pass
  rw [h.selection, h.paths]
  exact Survey.lookAll_congr (s := ⟨s.db, s.ledger, ⟨0, 0, 0⟩⟩) (t := ⟨t.db, t.ledger, ⟨0, 0, 0⟩⟩)
    hdb h.changes listeners keep d _

theorem pass_observers (s : Session) (d : Disk) :
    (s.pass d observers false).1 = { s with db := (s.pass d observers false).1.db } := by
  have hledger : (s.pass d observers false).1.ledger = s.ledger := Survey.ledger_lookAll ..
  conv_rhs => rw [← hledger]
  rfl

theorem needsFacts_settle (h : s.needsFacts = true) : (s.settle d).needsFacts = true := by
  refine settle_induction (P := fun t => t.needsFacts = true) (fun t cls old new ht => ?_)
    (fun t old new ht => ?_) h
  · unfold renameMethod
    split
    · exact ht
    · rfl
  · unfold renameFile queueMove
    dsimp only
    repeat' split
    all_goals exact ht

theorem fresh_prepared (s : Session) (d : Disk) :
    (s.prepared d).fresh = { s.prepared d with db := Symbols.empty } := by
  have hledger : (s.prepared d).ledger.clearEdits.freeze = (s.prepared d).ledger := by
    rw [ledger_prepared]
    rfl
  rw [fresh, hledger]

/-- The first pass of a prepared session finds what is known. -/
theorem firstPass_prepared (s : Session) (d : Disk) :
    (s.prepared d).fresh.firstPass d = (s.prepared d, (s.fresh.firstPass d).2) := by
  cases hneeds : s.needsFacts with
  | false =>
    have hfirst : s.fresh.firstPass d = (s.fresh, none) := if_neg (by rw [fresh, hneeds]; decide)
    have hprepared : s.prepared d = s.fresh := by
      rw [prepared, hfirst]
      exact settle_of_unknown rfl
    rw [hprepared, hfirst]
    exact hfirst
  | true =>
    have hfirst : s.fresh.firstPass d = s.fresh.pass d observers false := if_pos hneeds
    have hneeds' : (s.prepared d).fresh.needsFacts = true := by
      rw [fresh, prepared, hfirst]
      exact needsFacts_settle hneeds
    have hkeeps : s.fresh.Keeps (s.prepared d) := (keeps_firstPass s.fresh d).trans (keeps_settle _ d)
    obtain ⟨hdb, -, hfault⟩ := pass_congr (s := s.fresh) (t := (s.prepared d).fresh)
      ⟨hkeeps.selection, hkeeps.paths, rfl⟩ rfl d observers false
    have hknown : (s.prepared d).db = (s.fresh.pass d observers false).1.db := by
      rw [prepared, hfirst]
      exact (extends_settle _ d).db
    rw [firstPass, if_pos hneeds', hfirst]
    refine Prod.ext ?_ hfault
    rw [pass_observers, hdb, ← hknown, fresh_prepared]

/-- **There is nothing to find out for a session that has been prepared.** -/
theorem prepared_prepared (s : Session) (d : Disk) :
    (s.prepared d).prepared d = s.prepared d := by
  conv_lhs => rw [prepared, firstPass_prepared]
  exact settle_settle _ d

/-! ## What is known and gathered -/

/-- Proposers learn nothing. -/
theorem db_lastPass (s : Session) (d : Disk) : (s.lastPass d).1.db = s.db := by
  obtain ⟨sources, -, he⟩ := Survey.lookAll_eq_foldl (s.proposers.map .proposer) true d
    (s.selection.files d s.paths) ⟨s.db, s.ledger, ⟨0, 0, 0⟩⟩
  exact (congrArg Survey.db he).trans (Survey.db_foldl_look_proposers ..)

theorem db_gathered (s : Session) (d : Disk) : (s.gathered d).db = (s.fresh.firstPass d).1.db :=
  (db_lastPass ..).trans (extends_settle ..).db

/-- **What a run gathers** if nothing follows from its first pass and all files can be read: it knows
what the files say, if it has to, and has gathered what the proposers propose in them. -/
theorem gathered_of_sources {sources : List Php.Source} (hfollow : s.followUps = [])
    (h : List.Forall₂ (fun p x => ∃ content, d.read p = .ok content ∧ x = Php.Source.read p content)
      (s.selection.files d s.paths) sources) :
    s.passFault? d = none ∧ ∃ db,
      (s.needsFacts = true → db =
        (sources.foldl (Survey.look observers false) ⟨Symbols.empty, s.fresh.ledger, ⟨0, 0, 0⟩⟩).db) ∧
      s.prepared d = { s.fresh with db } ∧
      s.gathered d = { s.fresh with
        db
        ledger := (sources.flatMap (Proposer.proposals s.proposers db)).foldl Ledger.addEdit
          s.fresh.ledger } := by
  have hpass : ∀ (t : Session) listeners keep, t.selection = s.selection → t.paths = s.paths →
      t.pass d listeners keep = ({ t with
        db := (sources.foldl (Survey.look listeners keep) ⟨t.db, t.ledger, ⟨0, 0, 0⟩⟩).db
        ledger := (sources.foldl (Survey.look listeners keep) ⟨t.db, t.ledger, ⟨0, 0, 0⟩⟩).ledger },
        none) := by
    intro t listeners keep hselection hpaths
    unfold pass Survey.pass
    rw [hselection, hpaths, Survey.lookAll_of_sources h]
  obtain ⟨db, hdb, hfirst⟩ : ∃ db, (s.needsFacts = true → db =
      (sources.foldl (Survey.look observers false) ⟨Symbols.empty, s.fresh.ledger, ⟨0, 0, 0⟩⟩).db) ∧
      s.fresh.firstPass d = ({ s.fresh with db }, none) := by
    cases hneeds : s.needsFacts with
    | false => exact ⟨Symbols.empty, (fun h => by cases h), if_neg (Bool.eq_false_iff.1 hneeds)⟩
    | true =>
      have hfirst : s.fresh.firstPass d = s.fresh.pass d observers false := if_pos hneeds
      refine ⟨_, fun _ => rfl, hfirst.trans (Prod.ext ?_ ?_)⟩
      · rw [pass_observers, hpass s.fresh observers false rfl rfl]
        rfl
      · rw [hpass s.fresh observers false rfl rfl]
  have hprepared : s.prepared d = { s.fresh with db } := by
    rw [prepared, hfirst]
    exact settle_of_taken fun f hf => by rw [fresh, hfollow] at hf; cases hf
  have hlast := hpass (s.prepared d) ((s.prepared d).proposers.map .proposer) true
    (by rw [hprepared]; rfl) (by rw [hprepared]; rfl)
  refine ⟨by rw [passFault?, hfirst, lastPass, hlast]; rfl, db, hdb, hprepared, ?_⟩
  rw [gathered, lastPass, hlast]
  dsimp only
  rw [Survey.db_foldl_look_proposers, Survey.foldl_look_proposers, hprepared]
  rfl

/-! ## A disk with one file -/

/-- A disk with a single file. -/
def oneFile (text : String) : Disk :=
  ⟨[], [(["a"], .file (.text text) true)]⟩

theorem place_oneFile (text : String) (follow : Bool) :
    (oneFile text).place follow ⟨"/a"⟩ = .ok (.taken ["a"] (.file (.text text) true)) ∧
      (oneFile text).place follow ⟨"/b"⟩ = .ok (.free [] "b" false) ∧
      (oneFile text).place follow ⟨"/"⟩ = .ok (.taken [] (.directory true)) := by
  have ha := Disk.place_in_root "a" (by decide) (by decide) (by decide) (oneFile text) follow
  have hb := Disk.place_in_root "b" (by decide) (by decide) (by decide) (oneFile text) follow
  have hroot : (oneFile text).place follow ⟨"/"⟩ = .ok (.taken [] (.directory true)) := by
    have hpieces : Path.segments ['/'] = [[], []] := by decide
    have hsize : "/".utf8ByteSize = 1 := by decide
    simp [Disk.place, hpieces, hsize, Disk.walk, Disk.maxSpelling, Disk.node?, Path.isAbsolute]
  exact ⟨ha, hb, hroot⟩

theorem find_oneFile (text : String) :
    (oneFile text).find ⟨"/a"⟩ = .ok (["a"], .file (.text text) true) ∧
      (oneFile text).find ⟨"/b"⟩ = .error .notFound ∧
      (oneFile text).find ⟨"/"⟩ = .ok ([], .directory true) := by
  simp [Disk.find, place_oneFile]

end PhpRename.Session
