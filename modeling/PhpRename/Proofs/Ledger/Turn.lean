import Mathlib.Algebra.BigOperators.Group.List.Basic
import Mathlib.Algebra.GroupWithZero.Nat
import PhpRename.Proofs.Disk.Rewrite
import PhpRename.Proofs.Edit.Splice
import PhpRename.Proofs.Ledger.Enact

/-!
# File by file

The files of a ledger have their turns one after the other. A turn leaves the disk as it is, or it
rewrites its file, and it says something only if it could not do that.

* `Turn.Settled`: what may come of a turn, and `settled_of_mem_turns`: it is what comes of it.
* `Turn.Chain`: each turn begins with the disk that the last one has left. Turns change what they
  rewrite and nothing else (`Turn.Chain.node?_eq`), and at separate files they do not depend on one
  another (`Turn.Chain.independent`).
* `foldl_applyChoice`: the report of all turns.
-/

namespace PhpRename

open Edit

/-- The turn of a file: what is chosen for it, the disk before and after, and what is said. -/
structure Turn where
  file : Path
  choice : Choice
  before : Disk
  after : Disk
  said : List Remark

variable {d d' : Disk} {file : Path} {c : Choice} {cs : List (Path × Choice)} {t : Turn}

namespace Turn

/-- The turn that what is chosen for a file leads to. -/
def of (d : Disk) (file : Path) (c : Choice) : Turn :=
  if c.apply.isEmpty then ⟨file, c, d, d, []⟩
  else
    match d.edit file c.apply with
    | .error r => ⟨file, c, d, d, [r]⟩
    | .ok d' => ⟨file, c, d, d', []⟩

/-- The file has been rewritten. -/
def isMade (t : Turn) : Bool :=
  !t.choice.apply.isEmpty && t.said.isEmpty

/-- The number of edits that have been made. -/
def edits (t : Turn) : Nat :=
  if t.isMade then t.choice.apply.length else 0

/-- Why the edits of a file have not been made: it cannot be read, one of them does not fit it, or
it cannot be written. -/
inductive Obstacle (t : Turn) : Remark → Prop
  | unreadable (fault : Disk.Fault) (read : t.before.read t.file = .error fault) :
      Obstacle t (.unreadable t.file fault)
  | unfit (content : String) (e : Edit) (read : t.before.read t.file = .ok content)
      (mem : e ∈ t.choice.apply) (unfit : e.fits content.toList = false) :
      Obstacle t (.unfit t.file (.outside e.offset e.length))
  | unwritable (content : String) (new : List Char) (fault : Disk.Fault)
      (read : t.before.read t.file = .ok content)
      (splice : Edit.splice content.toList t.choice.apply = .ok new)
      (rewrite : t.before.rewrite t.file (String.ofList new) = .error fault) :
      Obstacle t (.unwritable t.file fault)

/-- What may come of a turn. -/
inductive Settled (t : Turn) : Prop
  /-- Nothing is chosen, so nothing is done. -/
  | idle (none : t.choice.apply = []) (kept : t.after = t.before) (silent : t.said = [])
  /-- The file now holds its text with the chosen edits made, and nothing else is changed. -/
  | made (content : String) (new : List Char) (n r : Disk.Name) (some : t.choice.apply ≠ [])
      (read : t.before.read t.file = .ok content)
      (splice : Edit.splice content.toList t.choice.apply = .ok new)
      (rewritten : t.before.Rewritten t.after t.file (String.ofList new) n r)
      (reads : t.after.read t.file = .ok (String.ofList new)) (silent : t.said = [])
  /-- Nothing is changed, and one remark says why. -/
  | refused (r : Remark) (some : t.choice.apply ≠ []) (kept : t.after = t.before)
      (said : t.said = [r]) (why : t.Obstacle r)

/-- The turns lead from one disk to another, each from what the last one has left. -/
def Chain (d : Disk) : List Turn → Disk → Prop
  | [], d' => d' = d
  | t :: turns, d' => t.before = d ∧ Chain t.after turns d'

end Turn

/-! ## One turn -/

theorem Turn.of_file (d : Disk) (file : Path) (c : Choice) : (Turn.of d file c).file = file := by
  rw [Turn.of]
  split
  · rfl
  · split <;> rfl

theorem Turn.of_choice (d : Disk) (file : Path) (c : Choice) : (Turn.of d file c).choice = c := by
  rw [Turn.of]
  split
  · rfl
  · split <;> rfl

theorem Turn.of_before (d : Disk) (file : Path) (c : Choice) : (Turn.of d file c).before = d := by
  rw [Turn.of]
  split
  · rfl
  · split <;> rfl

/-- **What may come of edits** that do not compete. -/
theorem settled_of (hd : d.IsTree) (ha : Apart c.apply) (file : Path) :
    (Turn.of d file c).Settled := by
  rw [Turn.of]
  split
  · rename_i hnone
    exact .idle (List.isEmpty_iff.1 hnone) rfl rfl
  rename_i hnone
  have hsome : c.apply ≠ [] := fun he => hnone (List.isEmpty_iff.2 he)
  rw [Disk.edit]
  cases hread : d.read file with
  | error fault => exact .refused _ hsome rfl rfl (.unreadable fault hread)
  | ok content =>
    dsimp only
    cases hsplice : splice content.toList c.apply with
    | error fault =>
      obtain ⟨e, he, hfit, rfl⟩ := splice_eq_error ha hsplice
      exact .refused _ hsome rfl rfl (.unfit content e hread he hfit)
    | ok new =>
      dsimp only
      cases hwrite : d.rewrite file (String.ofList new) with
      | error fault =>
        exact .refused _ hsome rfl rfl (.unwritable content new fault hread hsplice hwrite)
      | ok d' =>
        obtain ⟨n, r, hrew⟩ := Disk.rewritten_of_read hd hread hwrite
        exact .made content new n r hsome hread hsplice hrew (hrew.read_eq hd) rfl

theorem Turn.Settled.isTree (h : t.Settled) (hd : t.before.IsTree) : t.after.IsTree := by
  cases h with
  | idle _ kept _ => rwa [kept]
  | made content new n r _ _ _ rewritten _ _ => exact rewritten.replaces.isTree hd
  | refused r _ kept _ _ => rwa [kept]

namespace Turn

/-! ## Turns that follow one another -/

variable {ts : List Turn} {paths : List Path} {q : Path}

/-- A turn at separate files does nothing to the others, and they stay separate. -/
theorem Settled.separate (h : t.Settled) (hd : t.before.IsTree) (hsep : t.before.Separate paths)
    (ht : t.file ∈ paths) : t.after.Separate paths ∧
      ∀ q ∈ paths, q ≠ t.file → t.after.place true q = t.before.place true q := by
  cases h with
  | idle _ kept _ => rw [kept]; exact ⟨hsep, fun _ _ _ => rfl⟩
  | made content new n r _ _ _ rewritten _ _ => exact rewritten.separate hd hsep ht
  | refused r _ kept _ _ => rw [kept]; exact ⟨hsep, fun _ _ _ => rfl⟩

/-- Turns at separate files do nothing to the others. -/
theorem Chain.place_eq (hc : Chain d ts d') (hs : ∀ t ∈ ts, t.Settled) (hd : d.IsTree)
    (hsep : d.Separate paths) (hts : ∀ t ∈ ts, t.file ∈ paths) (hq : q ∈ paths)
    (hne : ∀ t ∈ ts, q ≠ t.file) : d'.place true q = d.place true q := by
  induction ts generalizing d with
  | nil => rw [show d' = d from hc]
  | cons t ts ih =>
    obtain ⟨rfl, hc⟩ := hc
    obtain ⟨ht, hs⟩ := List.forall_mem_cons.1 hs
    obtain ⟨htp, hts⟩ := List.forall_mem_cons.1 hts
    obtain ⟨hqt, hne⟩ := List.forall_mem_cons.1 hne
    obtain ⟨hsep', hother⟩ := ht.separate hd hsep htp
    rw [ih hc hs (ht.isTree hd) hsep' hts hne, hother q hq hqt]

theorem Chain.isTree (hc : Chain d ts d') (hs : ∀ t ∈ ts, t.Settled) (hd : d.IsTree) (ht : t ∈ ts) :
    t.before.IsTree := by
  induction ts generalizing d with
  | nil => cases ht
  | cons u ts ih =>
    obtain ⟨rfl, hchain⟩ := hc
    obtain ⟨hu, hrest⟩ := List.forall_mem_cons.1 hs
    rcases List.mem_cons.1 ht with rfl | ht
    · exact hd
    · exact ih hchain hrest (hu.isTree hd) ht

/-- **At separate files the turns do not depend on one another**: a path leads to what it led to at
first when its turn comes, and the file stays as that leaves it. -/
theorem Chain.independent (hc : Chain d ts d') (hs : ∀ t ∈ ts, t.Settled) (hd : d.IsTree)
    (hsep : d.Separate paths) (hts : ∀ t ∈ ts, t.file ∈ paths) (hnodup : (ts.map Turn.file).Nodup)
    (ht : t ∈ ts) :
    t.before.place true t.file = d.place true t.file ∧ d'.read t.file = t.after.read t.file := by
  induction ts generalizing d with
  | nil => cases ht
  | cons u ts ih =>
    obtain ⟨rfl, hchain⟩ := hc
    obtain ⟨hu, hrest⟩ := List.forall_mem_cons.1 hs
    obtain ⟨hup, hpaths⟩ := List.forall_mem_cons.1 hts
    obtain ⟨hnew, hnodup'⟩ := List.nodup_cons.1 hnodup
    obtain ⟨hsep', hother⟩ := hu.separate hd hsep hup
    have hne : ∀ t ∈ ts, u.file ≠ t.file := fun t ht he =>
      hnew (he ▸ List.mem_map_of_mem (f := Turn.file) ht)
    rcases List.mem_cons.1 ht with rfl | ht
    · exact ⟨rfl, Disk.read_congr (hchain.place_eq hrest (hu.isTree hd) hsep' hpaths hup hne)⟩
    · obtain ⟨hbefore, hafter⟩ := ih hchain hrest (hu.isTree hd) hsep' hpaths hnodup' ht
      rw [hbefore, hother t.file (hpaths t ht) (Ne.symm (hne t ht))]
      exact ⟨rfl, hafter⟩

/-- **Turns change what they rewrite, and nothing else.** -/
theorem Chain.node?_eq (hc : Chain d ts d') (hs : ∀ t ∈ ts, t.Settled) {m : Disk.Name}
    (hm : ∀ t ∈ ts, t.isMade = true → ∀ node, t.before.place false t.file ≠ .ok (.taken m node)) :
    d'.node? m = d.node? m := by
  induction ts generalizing d with
  | nil => rw [show d' = d from hc]
  | cons t ts ih =>
    obtain ⟨rfl, hc⟩ := hc
    obtain ⟨ht, hs⟩ := List.forall_mem_cons.1 hs
    obtain ⟨hmt, hm⟩ := List.forall_mem_cons.1 hm
    rw [ih hc hs hm]
    cases ht with
    | idle _ kept _ => rw [kept]
    | refused r _ kept _ _ => rw [kept]
    | made content new n r some _ _ rewritten _ silent =>
      obtain ⟨node, hnamed⟩ := rewritten.named
      refine rewritten.replaces.others m ?_
      rintro rfl
      exact hmt (by simp [isMade, some, silent]) node hnamed

end Turn

namespace Ledger

/-! ## All turns -/

/-- The turns that choices lead to, from a disk on. -/
def turns : Disk → List (Path × Choice) → List Turn
  | _, [] => []
  | d, (file, c) :: cs => Turn.of d file c :: turns (Turn.of d file c).after cs

/-- The disk after the turns that choices lead to. -/
def afterTurns : Disk → List (Path × Choice) → Disk
  | d, [] => d
  | d, (file, c) :: cs => afterTurns (Turn.of d file c).after cs

theorem map_turns (d : Disk) (cs : List (Path × Choice)) :
    (turns d cs).map (fun t => (t.file, t.choice)) = cs := by
  induction cs generalizing d with
  | nil => rfl
  | cons c cs ih => rw [turns, List.map_cons, ih, Turn.of_file, Turn.of_choice]

theorem chain_turns (d : Disk) (cs : List (Path × Choice)) :
    Turn.Chain d (turns d cs) (afterTurns d cs) := by
  induction cs generalizing d with
  | nil => rfl
  | cons c cs ih => exact ⟨Turn.of_before d c.1 c.2, ih _⟩

/-- **Every turn is settled**, whatever the others come to. -/
theorem settled_of_mem_turns (hd : d.IsTree) (ha : ∀ c ∈ cs, Apart c.2.apply) (ht : t ∈ turns d cs) :
    t.Settled := by
  induction cs generalizing d with
  | nil => cases ht
  | cons c cs ih =>
    obtain ⟨hc, hcs⟩ := List.forall_mem_cons.1 ha
    have hsettled := settled_of hd hc c.1
    rcases List.mem_cons.1 ht with rfl | ht
    · exact hsettled
    · exact ih (hsettled.isTree (by rwa [Turn.of_before])) hcs ht

/-- The report with what is to be said of a turn. -/
def withTurn (r : Report) (t : Turn) : Report :=
  { r with
    filesChanged := r.filesChanged + t.isMade.toNat
    editsApplied := r.editsApplied + t.edits
    suppressed := r.suppressed + t.choice.suppress.length
    remarks := r.remarks ++ t.said }

theorem applyChoice_eq (p : Progress) (file : Path) (c : Choice) : applyChoice p (file, c) =
    ⟨(Turn.of p.disk file c).after, withTurn p.report (Turn.of p.disk file c)⟩ := by
  rw [applyChoice, Turn.of]
  dsimp only
  split
  · rename_i hnone
    simp [withTurn, Turn.edits, Turn.isMade, hnone]
  · rename_i hsome
    cases p.disk.edit file c.apply with
    | error r => simp [withTurn, Turn.edits, Turn.isMade, Progress.remark]
    | ok d' => simp [withTurn, Turn.edits, Turn.isMade, hsome]

theorem foldl_applyChoice (p : Progress) (cs : List (Path × Choice)) : cs.foldl applyChoice p =
    ⟨afterTurns p.disk cs, (turns p.disk cs).foldl withTurn p.report⟩ := by
  induction cs generalizing p with
  | nil => rfl
  | cons c cs ih => rw [List.foldl_cons, applyChoice_eq, ih]; rfl

/-- **The report of turns** counts the files that were rewritten, the edits that were made and those
that were not chosen, and has all that was said. -/
theorem foldl_withTurn (r : Report) (ts : List Turn) : ts.foldl withTurn r = { r with
    filesChanged := r.filesChanged + ts.countP Turn.isMade
    editsApplied := r.editsApplied + (ts.map Turn.edits).sum
    suppressed := r.suppressed + (ts.map fun t => t.choice.suppress.length).sum
    remarks := r.remarks ++ ts.flatMap Turn.said } := by
  induction ts generalizing r with
  | nil => simp
  | cons t ts ih =>
    rw [List.foldl_cons, ih, withTurn]
    cases hmade : t.isMade <;> simp [hmade, Nat.add_assoc, Nat.add_comm, Nat.add_left_comm]

end Ledger

end PhpRename
