import PhpRename.Proofs.Edit.Modes
import PhpRename.Proofs.Ledger.Trip
import PhpRename.Proofs.Ledger.Turn

/-!
# No file is lost

When the edits of a ledger have been made its moves are, in the order in which they were queued. Chains
of moves, names that are exchanged, many sources for one target and sources that are gone are all
settled in the same way: a move is made to where no file stands, or it is not made and one remark says
so. In timid mode each move is named in a remark, and none is made.

* `Ledger.enact_of_timid`: the ledger in timid mode.
* `Ledger.moves_lose_nothing`: **enacting a ledger loses no file**, and accounts for every move.
-/

namespace PhpRename

variable {l l' : Ledger} {m : Mode} {d d' : Disk}

namespace Ledger

/-! ## In timid mode -/

/-- In timid mode nothing is chosen, so the edits of a ledger change nothing. -/
theorem edited_of_timid (h : l.mode = .timid) (d : Disk) :
    (l.edited d).disk = d ∧ (l.edited d).report.remarks = [] := by
  refine List.foldlRecOn (motive := fun p : Progress => p.disk = d ∧ p.report.remarks = []) _ _ ⟨rfl, rfl⟩ ?_
  rintro p hp c hc
  obtain ⟨file, -, rfl⟩ := List.mem_map.1 hc
  rw [applyChoice, h]
  dsimp only
  rw [FileEdits.choice, Choice.apply_timid]
  exact hp

/-- In timid mode moves are named. -/
theorem foldl_applyMove_timid (moves : List Move) (p : Progress) :
    moves.foldl (applyMove .timid) p = { p with report := { p.report with
      remarks := p.report.remarks ++ moves.map fun m => .wouldMove m.source m.target } } := by
  induction moves generalizing p with
  | nil => simp
  | cons m moves ih =>
    rw [List.foldl_cons, ih, applyMove, if_pos rfl]
    simp [Progress.remark]

/-- In whatever mode, moves add to the report how many were made and what is said of the others. -/
theorem exists_said (mode : Mode) (moves : List Move) (p : Progress) : ∃ made said,
    (moves.foldl (applyMove mode) p).report = { p.report with
      movesMade := p.report.movesMade + made
      remarks := p.report.remarks ++ said } ∧ ∀ r ∈ said, r.isOfMove = true := by
  by_cases hm : mode = .timid
  · rw [hm, foldl_applyMove_timid]
    refine ⟨0, _, rfl, fun r hr => ?_⟩
    obtain ⟨m, -, rfl⟩ := List.mem_map.1 hr
    rfl
  · rw [foldl_applyMove_eq hm]
    refine ⟨_, _, rfl, fun r hr => ?_⟩
    obtain ⟨t, ht, hsaid⟩ := List.mem_filterMap.1 hr
    exact isOfMove_of_mem_trips ht hsaid

/-! ## Once the edits have been made -/

/-- Making edits moves nothing. -/
theorem movesMade_edited (l : Ledger) (d : Disk) : (l.edited d).report.movesMade = 0 := by
  rw [edited, foldl_applyChoice, foldl_withTurn]
  rfl

/-- Making edits keeps a disk tidy. -/
theorem tidy_edited (hd : d.Tidy) (l : Ledger) : (l.edited d).disk.Tidy := by
  refine List.foldlRecOn (motive := fun p : Progress => p.disk.Tidy) _ _ hd fun p hp c _ => ?_
  rw [applyChoice]
  dsimp only
  split
  · exact hp
  split
  · exact hp
  rename_i d' hedit
  rw [Disk.edit] at hedit
  split at hedit
  · cases hedit
  split at hedit
  · cases hedit
  split at hedit
  · cases hedit
  · rename_i hwrite
    cases hedit
    exact hp.rewrite hwrite

/-- A timid ledger is never refused. The disk stays, and the moves are named. -/
theorem enact_of_timid (h : l.mode = .timid) (d : Disk) : ∃ l' done, l.enact d = (l', done, none) ∧
    done.disk = d ∧ l'.moves = [] ∧ done.report.movesMade = 0 ∧
    done.report.remarks = l.moves.map fun m => .wouldMove m.source m.target := by
  have hclash : firstClash? l.choices = none := by
    refine firstClash?_eq_none_iff.2 fun c hc => ?_
    obtain ⟨file, -, rfl⟩ := List.mem_map.1 hc
    rw [h]
    dsimp only
    rw [FileEdits.choice, Choice.apply_timid]
    exact .nil
  obtain ⟨hdisk, hremarks⟩ := edited_of_timid h d
  have hmoved := foldl_applyMove_timid l.moves (l.edited d)
  rw [hremarks, List.nil_append] at hmoved
  rw [enact, hclash, ← edited, h]
  dsimp only
  rw [hmoved]
  exact ⟨_, _, rfl, hdisk, rfl, movesMade_edited l d, rfl⟩

/-! ## In the other modes -/

/-- **Enacting a ledger loses no file.** Unless edits that are chosen compete, a ledger can be enacted,
and no moves are queued then. In timid mode the disk stays as it is, and there is one remark for each
move. In the other modes the moves are made in order, each from the disk that the last one has left, or
one remark says why a move is not made: as many moves as were queued are made or remarked on. A file that
stands somewhere before a move stands there after it, or it has been moved to where no file stood, and
what the files hold is in the end what they held before the first move. Of the system it is assumed that
it moves to free places only, where a target goes up by `..`: a directory that is made for such a target
can bring it to a file. Other targets stay free. -/
theorem moves_lose_nothing (hd : d.Tidy)
    (hchosen : l.mode ≠ .timid → ∀ c ∈ l.choices, Edit.Apart c.2.apply) :
    ∃ l' done, l.enact d = (l', done, none) ∧ l'.moves = [] ∧
      (l.mode = .timid → done.disk = d ∧ done.report.movesMade = 0 ∧
        done.report.remarks = l.moves.map fun m => .wouldMove m.source m.target) ∧
      (l.mode ≠ .timid →
        let ts := trips (l.edited d).disk l.moves
        ts.map Trip.move = l.moves ∧ Trip.Chain (l.edited d).disk ts done.disk ∧
        done.report.remarks = (l.edited d).report.remarks ++ ts.filterMap Trip.said ∧
        done.report.movesMade = ts.countP Trip.isMade ∧
        done.report.movesMade + (ts.filterMap Trip.said).length = l.moves.length ∧
        ((∀ t ∈ ts, t.isMade = true → .up ∈ t.move.target.parts → t.ToFree) →
          (∀ t ∈ ts, t.Ended ∧ t.KeepsFiles) ∧
            done.disk.contents = (l.edited d).disk.contents)) := by
  by_cases hm : l.mode = .timid
  · obtain ⟨l', done, henact, hdisk, hmoves, hmade, hremarks⟩ := enact_of_timid hm d
    exact ⟨l', done, henact, hmoves, fun _ => ⟨hdisk, hmade, hremarks⟩, fun h => absurd hm h⟩
  have hmoved := foldl_applyMove_eq hm l.moves (l.edited d)
  rw [movesMade_edited, Nat.zero_add] at hmoved
  rw [enact, firstClash?_eq_none_iff.2 (hchosen hm), ← edited]
  dsimp only
  rw [hmoved]
  refine ⟨_, _, rfl, rfl, fun h => absurd h hm, fun _ => ?_⟩
  -- the trips begin where the edits have left the disk, and that is tidy
  have htidy := tidy_edited hd l
  have hmap := map_trips (l.edited d).disk l.moves
  have hchain := chain_trips (l.edited d).disk l.moves
  refine ⟨hmap, hchain, rfl, rfl, ?_, fun hfree => ?_⟩
  · rw [countP_isMade_add]
    conv_rhs => rw [← hmap]
    exact (List.length_map _).symm
  · have hended := fun t ht => ended_of_mem_trips htidy hfree (t := t) ht
    exact ⟨fun t ht => ⟨(hended t ht).2, (hended t ht).2.keepsFiles (hended t ht).1⟩,
      hchain.contents_eq (fun t ht => (hended t ht).2) htidy⟩

/-- Two files. -/
def pairOfFiles : Disk :=
  ⟨[], [(["a"], .file (.text "A") true), (["b"], .file (.text "B") true)]⟩

theorem tidy_pairOfFiles : pairOfFiles.Tidy :=
  ⟨Disk.isTree_of_entries ⟨true, rfl⟩ (by decide), by unfold Disk.ListsOnce; decide⟩

/-- The files are to exchange their names. A target goes up, one move begins where nothing stands any
more, and one leads to where the other file stands. -/
def exchange : Ledger :=
  { Ledger.new with moves :=
    [⟨⟨"/a"⟩, ⟨"/../c"⟩⟩, ⟨⟨"/b"⟩, ⟨"/a"⟩⟩, ⟨⟨"/b"⟩, ⟨"/new/b"⟩⟩, ⟨⟨"/a"⟩, ⟨"/c"⟩⟩, ⟨⟨"/c"⟩, ⟨"/b"⟩⟩] }

/-- A target that goes up from the root leads to the root, so there is nothing to make for it. -/
theorem readied_pairOfFiles : pairOfFiles.readied ⟨⟨"/a"⟩, ⟨"/../c"⟩⟩ = pairOfFiles ∧
    pairOfFiles.place false ⟨"/../c"⟩ = .ok (.free [] "c" false) := by
  have hpieces : Path.segments ['/', '.', '.', '/', 'c'] = [[], ['.', '.'], ['c']] ∧
      Path.segments ['/', '.', '.'] = [[], ['.', '.']] := by decide
  have hsize : "/../c".utf8ByteSize = 5 ∧ "/..".utf8ByteSize = 3 ∧ "c".utf8ByteSize = 1 := by decide
  have hparent : (⟨"/../c"⟩ : Path).parent? = some ⟨"/.."⟩ := rfl
  have hroot : ∀ follow, pairOfFiles.place follow ⟨"/.."⟩ = .ok (.taken [] (.directory true)) := by
    simp [Disk.place, hpieces, hsize, Disk.walk, Disk.maxSpelling, Disk.node?, Path.isAbsolute]
  have hmake : pairOfFiles.makeDirectories ⟨"/.."⟩ = (pairOfFiles, none) := by
    simp [Disk.makeDirectories, Disk.makeUpTo, Disk.ensureDirectory, Disk.makeDirectory, hroot,
      Disk.hasDirectory, Disk.find]
  refine ⟨by rw [Disk.readied, hparent]; dsimp only; rw [hmake], ?_⟩
  simp [Disk.place, hpieces, hsize, Disk.walk, Disk.maxSpelling, Disk.maxName, Disk.node?,
    Disk.onlySlashes, pairOfFiles, Path.isAbsolute, List.lookup_cons]

theorem moves_lose_nothing_exchange : ∃ l' done, exchange.enact pairOfFiles = (l', done, none) ∧
    l'.moves = [] ∧ done.report.movesMade + done.report.remarks.length = 5 ∧
    done.disk.contents = [.text "A", .text "B"] := by
  obtain ⟨l', done, henact, hmoves, -, hmade⟩ :=
    moves_lose_nothing (l := exchange) tidy_pairOfFiles (fun _ c hc => by cases hc)
  obtain ⟨hmap, -, hremarks, -, hcount, hkept⟩ := hmade (by decide)
  refine ⟨l', done, henact, hmoves, ?_, (hkept fun t ht _ hup => ?_).2⟩
  · rw [hremarks]
    exact hcount
  · obtain ⟨hready, hplace⟩ := readied_pairOfFiles
    rcases List.mem_cons.1 ht with rfl | ht
    · -- nothing stands where the first target leads
      intro n node htaken
      have hfree := (congrArg (·.place false ⟨"/../c"⟩) hready).trans hplace
      cases hfree.symm.trans htaken
    · -- no other target goes up
      have hmem : t.move ∈ exchange.moves.tail := by
        have := List.mem_map_of_mem (f := Trip.move) ht
        rwa [map_trips] at this
      have hnone : ∀ m ∈ exchange.moves.tail, Path.Part.up ∉ m.target.parts := by decide +kernel
      exact absurd hup (hnone t.move hmem)

end Ledger

end PhpRename
