import PhpRename.Ledger.Enact
import PhpRename.Proofs.Disk.Move

/-!
# Move by move

The moves of a ledger are made one after the other, each on the disk that the last one has left. On
its *trip* a move is made, or one remark says why it is not.

* `Trip.Ended`: what may come of a trip, and `ended_of`: it is what comes of it, as long as nothing is
  moved to where a file or a directory stands. Nothing is, if the target does not go up
  (`toFree_of_not_up`).
* `Trip.KeepsFiles`: no file gives way to another one on the trip; `Ended.keepsFiles`.
* `Trip.Chain`: trips that follow one another. They keep what the files hold (`Chain.contents_eq`).
* `foldl_applyMove_eq`: the report of all trips.
-/

namespace PhpRename

/-- The trip of a move: the disk before and after, and what is said if the move is not made. -/
structure Trip where
  move : Move
  before : Disk
  after : Disk
  said : Option Remark

/-- The remark is about a move that is not made. -/
def Remark.isOfMove : Remark → Bool
  | wouldMove .. | missing _ | occupied .. | noDirectory .. | unmovable .. => true
  | _ => false

variable {d d' : Disk} {m : Move} {r : Remark} {t : Trip} {ts : List Trip} {n : Disk.Name}

namespace Disk

/-- The disk once the directories have been made that the target of the move lies in, as far as they
can be. -/
def readied (d : Disk) (m : Move) : Disk :=
  match m.target.parent? with
  | none => d
  | some dir => (d.makeDirectories dir).1

theorem grown_readied (hd : d.Tidy) (m : Move) : d.Grown (d.readied m) := by
  rw [readied]
  split
  · exact .refl
  · exact grown_makeDirectories hd _

end Disk

namespace Trip

/-- The trip that a move leads to. -/
def of (d : Disk) (m : Move) : Trip :=
  ⟨m, d, (d.carryOut m).1, (d.carryOut m).2⟩

/-- The move has been made. -/
def isMade (t : Trip) : Bool :=
  t.said.isNone

/-- When there are directories for it, the target of the move leads to nothing, or at most to a link. -/
def ToFree (t : Trip) : Prop :=
  ∀ n node, (t.before.readied t.move).place false t.move.target = .ok (.taken n node) →
    ∃ text, node = .link text

/-- Why a move is not made: there is nothing to move, or something where it leads to, or there can be
no directory for it, or the disk does not allow it. -/
inductive Obstacle (t : Trip) : Remark → Prop
  | missing (source : t.before.hasEntry t.move.source = false) : Obstacle t (.missing t.move.source)
  | occupied (target : t.before.hasEntry t.move.target = true) :
      Obstacle t (.occupied t.move.source t.move.target)
  | noDirectory (dir : Path) (fault : Disk.Fault) (parent : t.move.target.parent? = some dir)
      (make : (t.before.makeDirectories dir).2 = some fault) : Obstacle t (.noDirectory dir fault)
  | unmovable (fault : Disk.Fault)
      (move : (t.before.readied t.move).move t.move.source t.move.target = .error fault) :
      Obstacle t (.unmovable t.move.source fault)

/-- What may come of a trip. -/
inductive Ended (t : Trip) : Prop
  /-- What the source leads to has got the name that the target leads to. Directories have been made
  for it, and nothing else is changed. -/
  | made (a : Disk.Name) (node : Disk.Node) (goal : Disk.Place)
      (grown : t.before.Grown (t.before.readied t.move))
      (source : (t.before.readied t.move).place false t.move.source = .ok (.taken a node))
      (target : (t.before.readied t.move).place false t.move.target = .ok goal)
      (renamed : (t.before.readied t.move).Renamed t.after a goal.name) (silent : t.said = none)
  /-- Nothing is moved, and one remark says why. Directories may have been made. -/
  | stayed (r : Remark) (grown : t.before.Grown t.after) (said : t.said = some r)
      (why : t.Obstacle r)

/-- **A file that stands somewhere before the trip stands there after it, or it has been moved to where
no file stood.** -/
def KeepsFiles (t : Trip) : Prop :=
  ∀ n content writable, t.before.node? n = some (.file content writable) →
    t.after.node? n = some (.file content writable) ∨
    t.isMade = true ∧ ∃ n', t.after.node? n' = some (.file content writable) ∧
      ∀ content writable, t.before.node? n' ≠ some (.file content writable)

/-- The trips lead from one disk to another, each from what the last one has left. -/
def Chain (d : Disk) : List Trip → Disk → Prop
  | [], d' => d' = d
  | t :: trips, d' => t.before = d ∧ Chain t.after trips d'

end Trip

/-! ## One trip -/

/-- **A target that does not go up stays free** when there are directories for it. -/
theorem toFree_of_not_up (hd : d.Tidy) (hup : .up ∉ m.target.parts)
    (hnone : d.hasEntry m.target = false)
    (hmade : ∀ dir, m.target.parent? = some dir → (d.makeDirectories dir).2 = none) :
    (Trip.of d m).ToFree := by
  intro n node htaken
  dsimp only [Trip.of] at htaken
  rw [Disk.readied] at htaken
  cases hparent : m.target.parent? with
  | none =>
    rw [hparent] at htaken
    exact Disk.link_of_taken hd.toIsTree hnone htaken
  | some dir =>
    rw [hparent] at htaken
    exact Disk.makeDirectories_same hd hparent hup (hmade dir hparent) hnone htaken

/-- What is said when a move cannot be made is about that. -/
theorem isOfMove_of_carryOut (h : (d.carryOut m).2 = some r) : r.isOfMove = true := by
  rw [Disk.carryOut] at h
  split at h
  · cases h; rfl
  split at h
  · cases h; rfl
  dsimp only at h
  split at h
  · rename_i x hmade
    obtain rfl : x = r := Option.some.inj h
    split at hmade
    · cases hmade
    · obtain ⟨fault, -, rfl⟩ := Option.map_eq_some_iff.1 hmade
      rfl
  · split at h
    · cases h; rfl
    · cases h

/-- What carrying out a move comes to if there is something to move, and nothing where it leads to. -/
theorem carryOut_of_open (hsource : d.hasEntry m.source = true) (htarget : d.hasEntry m.target = false) :
    (∃ dir fault, m.target.parent? = some dir ∧ (d.makeDirectories dir).2 = some fault ∧
      d.carryOut m = (d.readied m, some (.noDirectory dir fault))) ∨
    ((∀ dir, m.target.parent? = some dir → (d.makeDirectories dir).2 = none) ∧
      d.carryOut m =
        match (d.readied m).move m.source m.target with
        | .error fault => (d.readied m, some (.unmovable m.source fault))
        | .ok d' => (d', none)) := by
  rw [Disk.carryOut, hsource, htarget, Disk.readied]
  cases hparent : m.target.parent? with
  | none => exact .inr ⟨nofun, rfl⟩
  | some dir =>
    obtain ⟨d', fault?, hmake⟩ : ∃ d' fault?, d.makeDirectories dir = (d', fault?) := ⟨_, _, rfl⟩
    cases fault? with
    | some fault =>
      refine .inl ⟨dir, fault, rfl, by rw [hmake], ?_⟩
      dsimp only
      rw [hmake]
      rfl
    | none =>
      refine .inr ⟨fun dir' he => ?_, ?_⟩
      · rw [← Option.some.inj he, hmake]
      · dsimp only
        rw [hmake]
        rfl

/-- **What may come of a move.** -/
theorem ended_of (hd : d.Tidy)
    (hfree : (Trip.of d m).isMade = true → .up ∈ m.target.parts → (Trip.of d m).ToFree) :
    (Trip.of d m).Ended := by
  have hof : ∀ {after said}, d.carryOut m = (after, said) → Trip.of d m = ⟨m, d, after, said⟩ := by
    intro after said h
    rw [Trip.of, h]
  cases hsource : d.hasEntry m.source with
  | false =>
    rw [hof (show d.carryOut m = (d, some (.missing m.source)) by rw [Disk.carryOut, hsource]; rfl)]
    exact .stayed _ .refl rfl (.missing hsource)
  | true =>
    cases htarget : d.hasEntry m.target with
    | true =>
      rw [hof (show d.carryOut m = (d, some (.occupied m.source m.target)) by
        rw [Disk.carryOut, hsource, htarget]; rfl)]
      exact .stayed _ .refl rfl (.occupied htarget)
    | false =>
      have hgrown := Disk.grown_readied hd m
      rcases carryOut_of_open hsource htarget with ⟨dir, fault, hparent, hmake, hcarry⟩ | ⟨hmade, hcarry⟩
      · rw [hof hcarry]
        exact .stayed _ hgrown rfl (.noDirectory dir fault hparent hmake)
      cases hmove : (d.readied m).move m.source m.target with
      | error fault =>
        rw [hmove] at hcarry
        rw [hof hcarry]
        exact .stayed _ hgrown rfl (.unmovable fault hmove)
      | ok d' =>
        rw [hmove] at hcarry
        have hgoal : (Trip.of d m).ToFree := by
          by_cases hup : .up ∈ m.target.parts
          · exact hfree (by rw [hof hcarry]; rfl) hup
          · exact toFree_of_not_up hd hup htarget hmade
        rw [hof hcarry]
        obtain ⟨a, node, goal, hplace, htaken, hrenamed⟩ :=
          Disk.move_cases (hgrown.tidy hd).toIsTree hgoal hmove
        exact .made a node goal hgrown hplace htaken hrenamed rfl

namespace Trip

theorem Ended.tidy (h : t.Ended) (hd : t.before.Tidy) : t.after.Tidy := by
  cases h with
  | made a node goal grown _ _ renamed _ => exact renamed.tidy (grown.tidy hd)
  | stayed r grown _ _ => exact grown.tidy hd

/-- **A trip keeps what the files hold.** -/
theorem Ended.contents_eq (h : t.Ended) (hd : t.before.Tidy) :
    t.after.contents = t.before.contents := by
  cases h with
  | made a node goal grown _ _ renamed _ =>
    exact (renamed.contents_eq (grown.tidy hd)).trans grown.contents_eq
  | stayed r grown _ _ => exact grown.contents_eq

theorem Ended.keepsFiles (h : t.Ended) (hd : t.before.Tidy) : t.KeepsFiles := by
  intro n content writable hfile
  cases h with
  | stayed r grown _ _ => exact .inl (grown.node?_eq hfile)
  | made a node goal grown _ _ renamed silent =>
    have hready := grown.node?_eq hfile
    rcases renamed with ⟨-, hsame⟩ | ⟨hmovable, hafter⟩
    · rw [hsame]
      exact .inl hready
    have hne : n ≠ goal.name := by
      rintro rfl
      obtain ⟨text, he⟩ := hmovable.clear _ hready
      cases he
    have hthere := hmovable.node?_along (grown.tidy hd) hready hne
    rw [← hafter] at hthere
    by_cases hin : Disk.Name.isWithin n a = true
    · refine .inr ⟨?_, _, hthere, fun content' writable' hfile' => ?_⟩
      · rw [isMade, silent]
        rfl
      · -- where it has been moved to, no file can have stood
        have hready' := grown.node?_eq hfile'
        obtain ⟨rest, rfl⟩ := Disk.isWithin_iff.1 hin
        rw [Disk.along_append] at hready'
        have hself := (grown.tidy hd).eq_of_within hmovable.not_isDirectory
          (Disk.isWithin_append goal.name rest) hready'
        rw [hself] at hready'
        obtain ⟨text, he⟩ := hmovable.clear _ hready'
        cases he
    · rw [Disk.along_of_not_within hin] at hthere
      exact .inl hthere

/-! ## Trips that follow one another -/

theorem Chain.contents_eq (hc : Chain d ts d') (hs : ∀ t ∈ ts, t.Ended) (hd : d.Tidy) :
    d'.contents = d.contents := by
  induction ts generalizing d with
  | nil => rw [show d' = d from hc]
  | cons t ts ih =>
    obtain ⟨rfl, hc⟩ := hc
    obtain ⟨ht, hs⟩ := List.forall_mem_cons.1 hs
    exact (ih hc hs (ht.tidy hd)).trans (ht.contents_eq hd)

end Trip

/-- The disk when some moves have been made, as far as they can be. -/
def Disk.carryOutAll (d : Disk) (moves : List Move) : Disk :=
  moves.foldl (fun d m => (d.carryOut m).1) d

namespace Ledger

/-! ## All trips -/

/-- The trips that moves lead to, from a disk on. -/
def trips : Disk → List Move → List Trip
  | _, [] => []
  | d, m :: moves => Trip.of d m :: trips (Trip.of d m).after moves

theorem map_trips (d : Disk) (moves : List Move) : (trips d moves).map Trip.move = moves := by
  induction moves generalizing d with
  | nil => rfl
  | cons m moves ih => rw [trips, List.map_cons, ih]; rfl

theorem chain_trips (d : Disk) (moves : List Move) :
    Trip.Chain d (trips d moves) (d.carryOutAll moves) := by
  induction moves generalizing d with
  | nil => rfl
  | cons m moves ih => exact ⟨rfl, ih _⟩

theorem isOfMove_of_mem_trips {moves : List Move} (ht : t ∈ trips d moves) (hr : t.said = some r) :
    r.isOfMove = true := by
  induction moves generalizing d with
  | nil => cases ht
  | cons m moves ih =>
    rcases List.mem_cons.1 ht with rfl | ht
    · exact isOfMove_of_carryOut hr
    · exact ih ht

/-- **Every trip ends well**, whatever the others come to. -/
theorem ended_of_mem_trips {moves : List Move} (hd : d.Tidy)
    (hfree : ∀ t ∈ trips d moves, t.isMade = true → .up ∈ t.move.target.parts → t.ToFree)
    (ht : t ∈ trips d moves) : t.before.Tidy ∧ t.Ended := by
  -- each trip leaves a tidy disk, whatever comes of it, so the next one can begin
  induction moves generalizing d with
  | nil => cases ht
  | cons m moves ih =>
    obtain ⟨hfirst, hrest⟩ := List.forall_mem_cons.1 hfree
    have hended := ended_of hd hfirst
    rcases List.mem_cons.1 ht with rfl | ht
    · exact ⟨hd, hended⟩
    · exact ih (hended.tidy hd) hrest ht

/-- **The report of trips** counts the moves that were made, and has what was said of the others. -/
theorem foldl_applyMove_eq {mode : Mode} (h : mode ≠ .timid) (moves : List Move) (p : Progress) :
    moves.foldl (applyMove mode) p = ⟨p.disk.carryOutAll moves, { p.report with
      movesMade := p.report.movesMade + (trips p.disk moves).countP Trip.isMade
      remarks := p.report.remarks ++ (trips p.disk moves).filterMap Trip.said }⟩ := by
  induction moves generalizing p with
  | nil => simp [trips, Disk.carryOutAll]
  | cons m moves ih =>
    rw [List.foldl_cons, ih, applyMove, if_neg h, trips]
    rcases hcarry : p.disk.carryOut m with ⟨disk, _ | r⟩
    · have hmade : Trip.isMade ⟨m, p.disk, disk, none⟩ = true := rfl
      simp [Trip.of, hcarry, hmade, Disk.carryOutAll, Nat.add_assoc, Nat.add_comm]
    · have hmade : Trip.isMade ⟨m, p.disk, disk, some r⟩ = false := rfl
      simp [Trip.of, hcarry, hmade, Disk.carryOutAll, Progress.remark]

/-- A move is made, or something is said of it. -/
theorem countP_isMade_add (ts : List Trip) :
    ts.countP Trip.isMade + (ts.filterMap Trip.said).length = ts.length := by
  induction ts with
  | nil => rfl
  | cons t ts ih =>
    cases hsaid : t.said with
    | none =>
      rw [List.countP_cons_of_pos (by simp [Trip.isMade, hsaid]), List.filterMap_cons_none hsaid,
        List.length_cons]
      omega
    | some r =>
      rw [List.countP_cons_of_neg (by simp [Trip.isMade, hsaid]), List.filterMap_cons_some hsaid,
        List.length_cons, List.length_cons]
      omega

end Ledger

end PhpRename
