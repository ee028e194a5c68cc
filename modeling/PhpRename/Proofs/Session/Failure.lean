import PhpRename.Proofs.Ledger.Gather
import PhpRename.Proofs.Session.Run

/-!
# A run that fails changes nothing

All that can fail comes before the first change of the disk: the passes and what follows from the
first of them only read, and the ledger is checked as a whole before any of it is enacted.

Besides files that cannot be read and edits that compete, a run may meet obstacles of which the
session knows nothing: text that cannot be cut into tokens, and renames that cannot be asked for.

* `Session.runUntil`: a run that obstacles may stop; `runUntil_none`: without any it is the run.
* `Ledger.exists_enact_eq_error_iff`: a ledger is refused if and only if in some file two of the
  edits that are chosen compete.
* `failed_run_changes_nothing`: what a run that fails, for whatever reason, leaves behind.
-/

namespace PhpRename

/-! ## The ledger -/

namespace Ledger

variable {l : Ledger} {d : Disk}

theorem exists_enact_eq_error : (∃ failure, (l.enact d).2.2 = some failure) ↔
    ∃ s ∈ l.changes, ¬ Edit.Apart (s.choice l.mode).apply := by
  have hclash : firstClash? l.choices = none ↔
      ∀ s ∈ l.changes, Edit.Apart (s.choice l.mode).apply := by
    rw [firstClash?_eq_none_iff, choices, List.forall_mem_map]
  rw [enact]
  cases hfirst : firstClash? l.choices with
  | none => simpa using hclash.1 hfirst
  | some failure =>
    have hnot : ¬ ∀ s ∈ l.changes, Edit.Apart (s.choice l.mode).apply := by
      rw [← hclash, hfirst]; exact Option.some_ne_none failure
    simpa using hnot

/-- **A ledger is refused** if and only if two edits, at whatever positions, compete that are chosen
for one file. -/
theorem exists_enact_eq_error_iff : (∃ failure, (l.enact d).2.2 = some failure) ↔
    ∃ s ∈ l.changes, ∃ (i j : ℕ) (hi : i < (s.choice l.mode).apply.length)
      (hj : j < (s.choice l.mode).apply.length), i ≠ j ∧
        (s.choice l.mode).apply[i].overlaps (s.choice l.mode).apply[j] = true := by
  rw [exists_enact_eq_error]
  simp only [Edit.apart_iff_forall, not_forall, Bool.not_eq_false, exists_prop]

/-- Two texts for one place are refused. -/
example : ({ Ledger.new with changes := [⟨⟨"/a"⟩, [⟨⟨"/a"⟩, 0, 3, "new", .certain, 1⟩,
    ⟨⟨"/a"⟩, 0, 3, "neu", .certain, 1⟩]⟩] }.enact ⟨[], []⟩).2.2 =
      some (.edits ⟨"/a"⟩ (.clash (0, 3) (0, 3))) := by cbv

theorem moves_foldl_addEdit (edits : List Edit) (l : Ledger) :
    (edits.foldl addEdit l).moves = l.moves := by
  rw [foldl_addEdit]

theorem prefix_addMove (l : Ledger) (m : Move) : l.moves <+: (l.addMove m).moves := by
  rw [addMove]
  split
  · exact List.prefix_rfl
  · exact List.prefix_append ..

end Ledger

/-! ## Steps that may fail -/

/-- Takes steps in order until one of them fails. What has been done by then stays. -/
def inTurn {σ α : Type} (step : σ → α → σ × Option Failure) : List α → σ → σ × Option Failure
  | [], s => (s, none)
  | x :: xs, s =>
    match step s x with
    | (t, none) => inTurn step xs t
    | (t, some failure) => (t, some failure)

section

variable {σ α : Type} {step : σ → α → σ × Option Failure} {P : σ → Prop} {s : σ}

/-- What every step keeps is kept, even if one of them fails. -/
theorem inTurn_induction (hstep : ∀ s x, P s → P (step s x).1) (xs : List α) (h : P s) :
    P (inTurn step xs s).1 := by
  induction xs generalizing s with
  | nil => exact h
  | cons x xs ih =>
    have hx := hstep s x h
    rw [inTurn]
    split
    · rename_i t he
      rw [he] at hx
      exact ih hx
    · rename_i t failure he
      rw [he] at hx
      exact hx

theorem inTurn_of_forall {f : σ → α → σ} (h : ∀ s x, step s x = (f s x, none)) (xs : List α)
    (s : σ) : inTurn step xs s = (xs.foldl f s, none) := by
  induction xs generalizing s with
  | nil => rfl
  | cons x xs ih => rw [inTurn, h]; exact ih (f s x)

end

/-! ## Runs that may be stopped -/

namespace Session

/-- What may stop a run, besides files that cannot be read and edits that compete. -/
structure Obstacles where
  /-- Why the text of a file cannot be cut into tokens. -/
  cut : Path → String → Option Failure
  /-- Why a rename cannot be asked for. -/
  ask : Request → Option Failure

/-- Nothing stops a run. -/
def Obstacles.none : Obstacles :=
  ⟨fun _ _ => .none, fun _ => .none⟩

variable {s t : Session} {d : Disk} {o : Obstacles}

/-- Shows one file to the listeners. -/
def lookUntil (o : Obstacles) (listeners : List Listener) (keep : Bool) (d : Disk) (s : Survey)
    (p : Path) : Survey × Option Failure :=
  match d.read p with
  | .ok content =>
    match o.cut p content with
    | some failure => (s, some failure)
    | none => (s.look listeners keep (Php.Source.read p content), none)
  | .error .notText => (s, none)
  | .error fault => (s, some (.disk fault))

/-- One pass over the files of the session. -/
def passUntil (o : Obstacles) (s : Session) (d : Disk) (listeners : List Listener) (keep : Bool) :
    Session × Option Failure :=
  let (survey, failure?) := inTurn (lookUntil o listeners keep d) (s.selection.files d s.paths)
    ⟨s.db, s.ledger, ⟨0, 0, 0⟩⟩
  ({ s with db := survey.db, ledger := survey.ledger }, failure?)

/-- Asks for a method of one more class to be renamed. A request that is refused counts as made. -/
def askMethod (o : Obstacles) (old new : String) (s : Session) (cls : String) :
    Session × Option Failure :=
  if s.methods.contains (cls, old) then (s, none)
  else
    match o.ask (.renameMethod cls old new false) with
    | some failure => ({ s with methods := (cls, old) :: s.methods }, some failure)
    | none => (s.renameMethod cls old new false, none)

/-- Takes care of one follow-up. -/
def followUntil (o : Obstacles) (d : Disk) (s : Session) : FollowUp → Session × Option Failure
  | .descendants cls old new => inTurn (askMethod o old new) (s.db.descendants cls) s
  | .classFile old new =>
    match s.db.class? old with
    | none => (s, none)
    | some c =>
      match Rename.classFileTarget? c.file old new s.selection.extensions.enabled with
      | none => (s, none)
      | some target =>
        match o.ask (.renameFile c.file target) with
        | some failure => (s, some failure)
        | none => (s.renameFile d c.file target, none)

/-- Takes care of all follow-ups in order. -/
def settleUntil (o : Obstacles) (s : Session) (d : Disk) : Session × Option Failure :=
  inTurn (followUntil o d) s.followUps s

/-- Goes on from where a step has led, unless that has failed. Nothing is done on the disk before. -/
def goOn (d : Disk) (reached : Session × Option Failure)
    (next : Session → Except Failure Report × Session × Disk) :
    Except Failure Report × Session × Disk :=
  match reached with
  | (s, some failure) => (.error failure, s, d)
  | (s, none) => next s

/-- The passes of a run, and what follows from them. -/
def runPassesUntil (o : Obstacles) (s : Session) (d : Disk) :
    Except Failure Report × Session × Disk :=
  goOn d (if s.needsFacts then s.passUntil o d observers false else (s, none)) fun s =>
  goOn d (s.settleUntil o d) fun s =>
  goOn d (s.passUntil o d (s.proposers.map Listener.proposer) true) fun s =>
  s.finish d

/-- A whole run that obstacles may stop. -/
def runUntil (o : Obstacles) (s : Session) (d : Disk) : Except Failure Report × Session × Disk :=
  let (result, s, d) := s.fresh.runPassesUntil o d
  (result, { s with ledger := s.ledger.thaw }, d)

/-! ## Without obstacles -/

theorem inTurn_lookUntil_none (listeners : List Listener) (keep : Bool) (d : Disk)
    (paths : List Path) (s : Survey) :
    inTurn (lookUntil .none listeners keep d) paths s =
      Survey.lookAll listeners keep d paths s := by
  induction paths generalizing s with
  | nil => rfl
  | cons p paths ih =>
    rw [inTurn, Survey.lookAll, lookUntil]
    cases d.read p with
    | ok content => exact ih _
    | error fault =>
      cases fault
      case notText => exact ih s
      all_goals rfl

theorem passUntil_none (s : Session) (d : Disk) (listeners : List Listener) (keep : Bool) :
    s.passUntil .none d listeners keep = s.pass d listeners keep := by
  rw [passUntil, inTurn_lookUntil_none]
  rfl

theorem askMethod_none (old new : String) (s : Session) (cls : String) :
    askMethod .none old new s cls = (s.renameMethod cls old new false, none) := by
  rw [askMethod, renameMethod]
  split <;> rfl

theorem followUntil_none (d : Disk) (s : Session) (f : FollowUp) :
    followUntil .none d s f = (follow d s f, none) := by
  cases f with
  | descendants cls old new => exact inTurn_of_forall (askMethod_none old new) _ s
  | classFile old new =>
    rw [followUntil, follow]
    cases s.db.class? old with
    | none => rfl
    | some c =>
      dsimp only
      cases Rename.classFileTarget? c.file old new s.selection.extensions.enabled <;> rfl

theorem settleUntil_none (s : Session) (d : Disk) : s.settleUntil .none d = (s.settle d, none) :=
  inTurn_of_forall (followUntil_none d) s.followUps s

theorem runPassesUntil_none (s : Session) (d : Disk) :
    s.runPassesUntil .none d = s.runPasses d := by
  unfold runPassesUntil runPasses
  simp only [passUntil_none, settleUntil_none, goOn]
  rcases (if s.needsFacts then s.pass d observers false else (s, none)) with ⟨t, _ | failure⟩ <;> rfl

/-- **A run that meets no obstacles is the run.** -/
theorem runUntil_none (s : Session) (d : Disk) : s.runUntil .none d = s.run d := by
  rw [runUntil, runPassesUntil_none]
  rfl

/-! ## Moves stay queued -/

/-- The moves that are queued in the first session are queued in the other one, at its front. -/
def KeepsMoves (s t : Session) : Prop :=
  s.ledger.moves <+: t.ledger.moves

theorem KeepsMoves.of_eq (h : t.ledger.moves = s.ledger.moves) : s.KeepsMoves t :=
  ⟨[], by rw [List.append_nil, h]⟩

theorem keepsMoves_passUntil (o : Obstacles) (s : Session) (d : Disk) (listeners : List Listener)
    (keep : Bool) : s.KeepsMoves (s.passUntil o d listeners keep).1 := by
  have hlook : ∀ (t : Survey) (p : Path), t.ledger.moves = s.ledger.moves →
      (lookUntil o listeners keep d t p).1.ledger.moves = s.ledger.moves := by
    intro t p ht
    rw [lookUntil]
    split
    · split
      · exact ht
      · rw [Survey.look]
        split
        · exact (Ledger.moves_foldl_addEdit ..).trans ht
        · exact ht
    · exact ht
    · exact ht
  have hall : (inTurn (lookUntil o listeners keep d) (s.selection.files d s.paths)
      ⟨s.db, s.ledger, ⟨0, 0, 0⟩⟩).1.ledger.moves = s.ledger.moves :=
    inTurn_induction (P := fun t : Survey => t.ledger.moves = s.ledger.moves) hlook _ rfl
  exact .of_eq hall

theorem ledger_renameMethod (s : Session) (cls old new : String) (inherited : Bool) :
    (s.renameMethod cls old new inherited).ledger = s.ledger := by
  unfold renameMethod
  split <;> rfl

theorem ledger_askMethod (o : Obstacles) (old new : String) (s : Session) (cls : String) :
    (askMethod o old new s cls).1.ledger = s.ledger := by
  rw [askMethod]
  split
  · rfl
  split
  · rfl
  · exact ledger_renameMethod s cls old new false

theorem keepsMoves_renameFile (s : Session) (d : Disk) (old new : Path) :
    s.KeepsMoves (s.renameFile d old new) := by
  unfold renameFile queueMove
  dsimp only
  split
  · exact List.prefix_rfl
  split
  · exact List.prefix_rfl
  split
  · exact List.prefix_rfl
  · exact Ledger.prefix_addMove ..

theorem keepsMoves_followUntil (o : Obstacles) (d : Disk) (s : Session) (f : FollowUp) :
    s.KeepsMoves (followUntil o d s f).1 := by
  cases f with
  | descendants cls old new =>
    have hledger : (inTurn (askMethod o old new) (s.db.descendants cls) s).1.ledger = s.ledger :=
      inTurn_induction (P := fun t => t.ledger = s.ledger)
        (fun t child ht => (ledger_askMethod o old new t child).trans ht) _ rfl
    exact .of_eq (congrArg Ledger.moves hledger)
  | classFile old new =>
    unfold followUntil
    dsimp only
    split
    · exact List.prefix_rfl
    split
    · exact List.prefix_rfl
    split
    · exact List.prefix_rfl
    · exact keepsMoves_renameFile ..

theorem keepsMoves_settleUntil (o : Obstacles) (s : Session) (d : Disk) :
    s.KeepsMoves (s.settleUntil o d).1 :=
  inTurn_induction (P := s.KeepsMoves)
    (fun t f ht => List.IsPrefix.trans ht (keepsMoves_followUntil o d t f)) _ List.prefix_rfl

/-! ## Runs that fail -/

/-- A ledger that is refused stays as it is, and so does the disk. -/
theorem finish_of_error {failure : Failure} (h : (s.ledger.enact d).2.2 = some failure) :
    s.finish d = (.error failure, { s with remarks := s.remarks ++ s.inclusionsToCheck }, d) := by
  rw [finish, Ledger.enact_of_refused h]
  dsimp only [Progress.start]
  rw [List.append_nil]

/-- If the outcome is a failure, the disk is as it was, and what was queued is queued. -/
def FailsCleanly (s : Session) (d : Disk) (r : Except Failure Report × Session × Disk) : Prop :=
  ∀ failure, r.1 = .error failure → r.2.2 = d ∧ s.KeepsMoves r.2.1

theorem failsCleanly_finish (hs : s.KeepsMoves t) : s.FailsCleanly d (t.finish d) := by
  intro failure h
  cases hrefused : (t.ledger.enact d).2.2 with
  | some failure' =>
    rw [finish_of_error hrefused]
    exact ⟨rfl, hs⟩
  | none =>
    rw [finish] at h
    dsimp only at h
    rw [hrefused] at h
    cases h

/-- A step that fails leaves the rest of a run out, so only the rest can touch the disk. -/
theorem failsCleanly_goOn {reached : Session × Option Failure}
    {next : Session → Except Failure Report × Session × Disk} (hs : s.KeepsMoves reached.1)
    (hnext : ∀ t, s.KeepsMoves t → s.FailsCleanly d (next t)) :
    s.FailsCleanly d (goOn d reached next) := by
  obtain ⟨t, _ | failure⟩ := reached
  · exact hnext t hs
  · exact fun _ _ => ⟨rfl, hs⟩

/-- **Passes that fail**, over whatever, leave the disk as it was and keep queued what was. -/
theorem failsCleanly_runPassesUntil (o : Obstacles) (s : Session) (d : Disk) :
    s.FailsCleanly d (s.runPassesUntil o d) := by
  have hfirst : s.KeepsMoves
      (if s.needsFacts then s.passUntil o d observers false else (s, none)).1 := by
    split
    · exact keepsMoves_passUntil o s d observers false
    · exact List.prefix_rfl
  -- stage by stage, the moves stay, and only the last stage is left to touch the disk
  refine failsCleanly_goOn hfirst fun t ht => ?_
  refine failsCleanly_goOn (ht.trans (keepsMoves_settleUntil o t d)) fun u hu => ?_
  exact failsCleanly_goOn (hu.trans (keepsMoves_passUntil o u d _ true)) fun v hv =>
    failsCleanly_finish hv

/-- **A run that fails changes nothing on the disk**: not over a file that cannot be read, nor over
edits that compete, nor over any obstacle in a pass or in what follows from the first one. The moves
that were queued before it stay queued, and settings can be changed again. A ledger is refused if and
only if two edits compete that are chosen for one file, and then it stays as it is, and nothing is
said beyond what was said before. -/
theorem failed_run_changes_nothing (s : Session) (d : Disk) :
    (∀ failure, (s.run d).1 = .error failure →
      (s.run d).2.2 = d ∧ s.ledger.moves <+: (s.run d).2.1.ledger.moves ∧
        (s.run d).2.1.ledger.frozen = false) ∧
    (∀ o failure, (s.runUntil o d).1 = .error failure →
      (s.runUntil o d).2.2 = d ∧ s.ledger.moves <+: (s.runUntil o d).2.1.ledger.moves ∧
        (s.runUntil o d).2.1.ledger.frozen = false) ∧
    ((∃ failure, (s.ledger.enact d).2.2 = some failure) ↔
      ∃ file ∈ s.ledger.changes, ∃ (i j : ℕ) (hi : i < (file.choice s.ledger.mode).apply.length)
        (hj : j < (file.choice s.ledger.mode).apply.length), i ≠ j ∧
          (file.choice s.ledger.mode).apply[i].overlaps (file.choice s.ledger.mode).apply[j] = true) ∧
    ∀ failure, (s.ledger.enact d).2.2 = some failure →
      s.ledger.enact d = (s.ledger, Progress.start d, some failure) ∧
      s.finish d = (.error failure, { s with remarks := s.remarks ++ s.inclusionsToCheck }, d) := by
  have huntil : ∀ o failure, (s.runUntil o d).1 = .error failure →
      (s.runUntil o d).2.2 = d ∧ s.ledger.moves <+: (s.runUntil o d).2.1.ledger.moves ∧
        (s.runUntil o d).2.1.ledger.frozen = false := by
    intro o failure h
    -- a run clears the ledger of edits first, and not of moves
    obtain ⟨hdisk, hmoves⟩ := failsCleanly_runPassesUntil o s.fresh d failure h
    exact ⟨hdisk, hmoves, rfl⟩
  refine ⟨?_, huntil, Ledger.exists_enact_eq_error_iff, fun failure h => ?_⟩
  · rw [← runUntil_none]
    exact huntil .none
  · exact ⟨Ledger.enact_of_refused h, finish_of_error h⟩

end Session

end PhpRename
