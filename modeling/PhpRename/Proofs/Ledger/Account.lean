import PhpRename.Proofs.Edit.Order
import PhpRename.Proofs.Ledger.Gather
import PhpRename.Proofs.Ledger.Moves

/-!
# No edit is lost

What becomes of the edits of a ledger: each is made, or not chosen, or stands in a file that could
not be rewritten, which one remark says.

* `Report.refusals`: what a report says of a file that could not be rewritten.
* `Ledger.refusals_eq_nil`: it says nothing if nothing stands in the way.
* `Ledger.Accounted`: the account of a ledger, file by file and in sum.
* `Ledger.enact_accounts`: a ledger that can be enacted accounts for all its edits.
-/

namespace PhpRename

/-- The file of which the remark says that its edits were not made. -/
def Remark.refused? : Remark → Option Path
  | unreadable file _ | unfit file _ | unwritable file _ => some file
  | _ => none

/-- The remarks which say that the edits of the file were not made. -/
def Report.refusals (r : Report) (file : Path) : List Remark :=
  r.remarks.filter fun x => x.refused?.any (· == file)

variable {d : Disk} {file : Path} {m : Move} {r : Remark} {ts : List Turn} {t : Turn}

/-! ## Remarks on files -/

theorem refused?_of_edit {edits : List Edit} (h : d.edit file edits = .error r) :
    r.refused? = some file := by
  rw [Disk.edit] at h
  split at h
  · cases h; rfl
  split at h
  · cases h; rfl
  split at h
  · cases h; rfl
  · cases h

/-- What is said in a turn is about its file. -/
theorem refused?_of_mem_turns {cs : List (Path × Choice)} (ht : t ∈ Ledger.turns d cs)
    (hr : r ∈ t.said) : r.refused? = some t.file := by
  induction cs generalizing d with
  | nil => cases ht
  | cons c cs ih =>
    rcases List.mem_cons.1 ht with rfl | ht
    · rw [Turn.of_file]
      rw [Turn.of] at hr
      split at hr
      · cases hr
      split at hr
      · rename_i x hedit
        obtain rfl := List.mem_singleton.1 hr
        exact refused?_of_edit hedit
      · cases hr
    · exact ih ht

theorem filter_said (h : ∀ r ∈ t.said, r.refused? = some t.file) (file : Path) :
    t.said.filter (fun x => x.refused?.any (· == file)) = if t.file == file then t.said else [] := by
  split
  · rename_i hfile
    refine List.filter_eq_self.2 fun x hx => ?_
    rw [h x hx, Option.any_some, hfile]
  · rename_i hfile
    refine List.filter_eq_nil_iff.2 fun x hx => ?_
    rw [h x hx, Option.any_some]
    exact hfile

/-- Of what is said in all turns, what is about a file was said in its turn. -/
theorem filter_flatMap_said (hs : ∀ t ∈ ts, ∀ r ∈ t.said, r.refused? = some t.file)
    (hfiles : ts.Pairwise fun t u => (t.file == u.file) = false) (ht : t ∈ ts) :
    (ts.flatMap Turn.said).filter (fun x => x.refused?.any (· == t.file)) = t.said := by
  -- turns of other files say nothing about this one
  have hother : ∀ ts : List Turn, (∀ u ∈ ts, ∀ r ∈ u.said, r.refused? = some u.file) →
      (∀ u ∈ ts, (u.file == t.file) = false) →
      (ts.flatMap Turn.said).filter (fun x => x.refused?.any (· == t.file)) = [] := by
    intro ts hs hne
    rw [List.filter_flatMap, List.flatMap_eq_nil_iff]
    intro u hu
    rw [filter_said (hs u hu), if_neg (by simp [hne u hu])]
  induction ts with
  | nil => cases ht
  | cons u ts ih =>
    obtain ⟨hu, hrest⟩ := List.forall_mem_cons.1 hs
    obtain ⟨hne, hpair⟩ := List.pairwise_cons.1 hfiles
    rw [List.flatMap_cons, List.filter_append, filter_said hu]
    rcases List.mem_cons.1 ht with rfl | ht
    · rw [if_pos (Path.beq_iff.2 rfl), hother ts hrest, List.append_nil]
      intro v hv
      rw [Bool.eq_false_iff, ne_eq, Path.beq_iff, eq_comm, ← Path.beq_iff, ← ne_eq, ← Bool.eq_false_iff]
      exact hne v hv
    · rw [if_neg (by simp [hne t ht]), List.nil_append]
      exact ih hrest hpair ht

/-- Each chosen edit is made, or stands in a file of which something is said. -/
theorem Turn.edits_add (t : Turn) :
    t.edits + (if t.said.isEmpty then 0 else t.choice.apply.length) = t.choice.apply.length := by
  rw [Turn.edits, Turn.isMade]
  cases t.said.isEmpty
  · simp
  · cases happly : t.choice.apply <;> simp

/-! ## Moves -/

/-- What is said of moves is not about edits. -/
theorem Remark.refused?_of_isOfMove (h : r.isOfMove = true) : r.refused? = none := by
  cases r with
  | unreadable file fault => cases h
  | unfit file fault => cases h
  | unwritable file fault => cases h
  | _ => rfl

namespace Ledger

variable {l l' : Ledger} {done : Progress}

/-- Moves change nothing in what is reported of edits. -/
theorem foldl_applyMove (mode : Mode) (moves : List Move) (p : Progress) :
    let moved := (moves.foldl (applyMove mode) p).report
    moved.filesChanged = p.report.filesChanged ∧ moved.editsApplied = p.report.editsApplied ∧
      moved.suppressed = p.report.suppressed ∧ ∀ file, moved.refusals file = p.report.refusals file := by
  obtain ⟨made, said, hreport, hsaid⟩ := exists_said mode moves p
  rw [hreport]
  refine ⟨rfl, rfl, rfl, fun file => ?_⟩
  have hnone : said.filter (fun x => x.refused?.any (· == file)) = [] := by
    refine List.filter_eq_nil_iff.2 fun r hr => ?_
    rw [Remark.refused?_of_isOfMove (hsaid r hr)]
    exact Bool.false_ne_true
  rw [Report.refusals, List.filter_append, hnone, List.append_nil]
  rfl

/-! ## Sums -/

theorem editCount_eq (l : Ledger) : l.editCount = (l.changes.map fun s => s.edits.length).sum := by
  have hfold : ∀ (changes : List FileEdits) n,
      changes.foldl (fun n s => n + s.edits.length) n = n + (changes.map fun s => s.edits.length).sum := by
    intro changes
    induction changes with
    | nil => intro n; rfl
    | cons s changes ih =>
      intro n
      rw [List.foldl_cons, ih, List.map_cons, List.sum_cons, Nat.add_assoc]
  rw [editCount, hfold, Nat.zero_add]

/-- Each edit is chosen or not. -/
theorem sum_choices (l : Ledger) :
    (l.choices.map fun c => c.2.apply.length + c.2.suppress.length).sum = l.editCount := by
  rw [editCount_eq, choices, List.map_map]
  refine congrArg List.sum (List.map_congr_left fun s _ => ?_)
  exact Choice.length_add_length l.mode s.edits

/-- The edits of turns are made, or not chosen, or stand in files of which something is said. -/
theorem sum_turns (ts : List Turn) :
    (ts.map Turn.edits).sum + (ts.map fun t => t.choice.suppress.length).sum +
      ((ts.filter fun t => !t.said.isEmpty).map fun t => t.choice.apply.length).sum =
    (ts.map fun t => t.choice.apply.length + t.choice.suppress.length).sum := by
  induction ts with
  | nil => rfl
  | cons t ts ih =>
    have hturn := t.edits_add
    rw [List.map_cons, List.map_cons, List.map_cons, List.sum_cons, List.sum_cons, List.sum_cons]
    cases hsaid : t.said.isEmpty with
    | true =>
      rw [hsaid, if_pos rfl] at hturn
      rw [List.filter_cons_of_neg (by simp [hsaid])]
      omega
    | false =>
      rw [hsaid, if_neg Bool.false_ne_true] at hturn
      rw [List.filter_cons_of_pos (by simp [hsaid]), List.map_cons, List.sum_cons]
      omega

/-- **What is reported of a ledger that has been enacted** is what is said of its turns. -/
theorem report_enact (h : l.enact d = (l', done, none)) :
    let ts := turns d l.choices
    done.report.filesChanged = ts.countP Turn.isMade ∧
      done.report.editsApplied = (ts.map Turn.edits).sum ∧
      done.report.suppressed = (ts.map fun t => t.choice.suppress.length).sum ∧
      ∀ file, done.report.refusals file =
        (ts.flatMap Turn.said).filter fun x => x.refused?.any (· == file) := by
  intro ts
  obtain ⟨-, hdone, -⟩ := enact_eq_ok h
  obtain ⟨hfiles, hedits, hsuppressed, hrefusals⟩ := foldl_applyMove l.mode l.moves (l.edited d)
  have hreport : (l.edited d).report = ts.foldl withTurn (Progress.start d).report := by
    rw [edited, foldl_applyChoice]
    rfl
  rw [foldl_withTurn] at hreport
  rw [← hdone, hreport] at hfiles hedits hsuppressed
  refine ⟨hfiles.trans (Nat.zero_add _), hedits.trans (Nat.zero_add _),
    hsuppressed.trans (Nat.zero_add _), fun file => ?_⟩
  rw [hdone, hrefusals, Report.refusals, hreport]
  rfl

/-- Where nothing is said, all chosen edits are made. -/
theorem editsApplied_of_silent (h : l.enact d = (l', done, none))
    (hsilent : ∀ file, done.report.refusals file = []) :
    done.report.editsApplied + done.report.suppressed = l.editCount := by
  obtain ⟨-, hedits, hsuppressed, hrefusals⟩ := report_enact h
  have hsaid : ∀ t ∈ turns d l.choices, t.said = [] := by
    intro t ht
    refine List.eq_nil_iff_forall_not_mem.2 fun r hr => ?_
    have hnone := (hrefusals t.file).symm.trans (hsilent t.file)
    refine List.filter_eq_nil_iff.1 hnone r (List.mem_flatMap.2 ⟨t, ht, hr⟩) ?_
    rw [refused?_of_mem_turns ht hr, Option.any_some]
    exact Path.beq_iff.2 rfl
  have hsum := sum_turns (turns d l.choices)
  have hchoices := sum_choices l
  rw [← map_turns d l.choices, List.map_map] at hchoices
  rw [List.filter_eq_nil_iff.2 fun t ht => by simp [hsaid t ht]] at hsum
  rw [hedits, hsuppressed]
  exact hsum.trans hchoices

/-! ## The files of the turns -/

theorem mem_choices_of_mem_turns {cs : List (Path × Choice)} (ht : t ∈ turns d cs) :
    (t.file, t.choice) ∈ cs := by
  rw [← map_turns d cs]
  exact List.mem_map_of_mem (f := fun t : Turn => (t.file, t.choice)) ht

/-- Different turns are those of different files. -/
theorem ascending_turns (hl : l.Filed) (d : Disk) :
    Ordered.Ascending ((turns d l.choices).map Turn.file) := by
  have hpaths := congrArg (List.map Prod.fst) (map_turns d l.choices)
  rw [List.map_map, choices, List.map_map] at hpaths
  have hfiled : Ordered.Ascending (l.changes.map (Prod.fst ∘ fun s => (s.path, s.choice l.mode))) := hl
  rwa [← hpaths] at hfiled

/-- **Nothing is said of separate files** that can be read and rewritten, if what is chosen for
each of them fits it. -/
theorem refusals_eq_nil (hl : l.Filed) (hd : d.IsTree) (hsep : d.Separate (l.choices.map Prod.fst))
    (h : l.enact d = (l', done, none))
    (hfit : ∀ c ∈ l.choices, ∃ content, d.read c.1 = .ok content ∧ d.Rewritable c.1 ∧
      ∀ e ∈ c.2.apply, e.fits content.toList = true) (file : Path) :
    done.report.refusals file = [] := by
  obtain ⟨hapart, -, -⟩ := enact_eq_ok h
  obtain ⟨-, -, -, hrefusals⟩ := report_enact h
  have hsettled : ∀ t ∈ turns d l.choices, t.Settled := fun t ht => settled_of_mem_turns hd hapart ht
  have hchain := chain_turns d l.choices
  have hfile : ∀ t ∈ turns d l.choices, t.file ∈ l.choices.map Prod.fst := fun t ht =>
    List.mem_map_of_mem (mem_choices_of_mem_turns ht)
  have hsaid : ∀ t ∈ turns d l.choices, t.said = [] := by
    intro t ht
    obtain ⟨content, hread, hrewritable, hfits⟩ := hfit _ (mem_choices_of_mem_turns ht)
    obtain ⟨hplace, -⟩ :=
      hchain.independent hsettled hd hsep hfile (ascending_turns hl d).nodup ht
    rw [← Disk.read_congr hplace] at hread
    cases hsettled t ht with
    | idle _ _ silent => exact silent
    | made _ _ _ _ _ _ _ _ _ silent => exact silent
    | refused r _ _ _ why =>
      cases why with
      | unreadable fault read =>
        rw [hread] at read
        cases read
      | unfit content' e read mem unfit =>
        rw [hread] at read
        cases read
        rw [hfits e mem] at unfit
        cases unfit
      | unwritable content' new fault read splice rewrite =>
        obtain ⟨d', hnew⟩ := (Disk.exists_rewrite_iff (hchain.isTree hsettled hd ht) hread).2
          (hrewritable.congr hplace)
        rw [hnew] at rewrite
        cases rewrite
  rw [hrefusals, List.flatMap_eq_nil_iff.2 hsaid, List.filter_nil]

/-! ## The account -/

/-- What has come of a ledger on a disk, told by the turns of its files. -/
structure Accounted (l : Ledger) (d : Disk) (turns : List Turn) (l' : Ledger) (done : Progress) :
    Prop where
  /-- Each file has its turn, with what the mode chooses for it, one after the other. -/
  each : turns.map (fun t => (t.file, t.choice)) = l.choices
  chain : Turn.Chain d turns (l.edited d).disk
  /-- In its turn a file with chosen edits gets these made, or keeps its text. -/
  settled : ∀ t ∈ turns, t.Settled
  /-- What the report says of a file was said in its turn. -/
  said : ∀ t ∈ turns, done.report.refusals t.file = t.said
  /-- Under no other name is anything changed. -/
  others : ∀ name, (∀ t ∈ turns, t.isMade = true →
    ∀ node, t.before.place false t.file ≠ .ok (.taken name node)) →
    (l.edited d).disk.node? name = d.node? name
  /-- Separate files do not depend on one another. -/
  separate : d.Separate (l.choices.map Prod.fst) → ∀ t ∈ turns,
    t.before.read t.file = d.read t.file ∧ (l.edited d).disk.read t.file = t.after.read t.file
  /-- Edits are made, or not chosen, or stand in a file of which the report says something. -/
  total : done.report.editsApplied + done.report.suppressed +
    ((turns.filter fun t => !(done.report.refusals t.file).isEmpty).map
      fun t => t.choice.apply.length).sum = l.editCount
  filesChanged : done.report.filesChanged = turns.countP Turn.isMade
  suppressed : l'.suppressed = done.report.suppressed
  /-- The notices name the files with edits that are not chosen, each with the lines of these. -/
  notices : List.Forall₂ (fun notice t => notice.1 = t.file ∧ Ordered.Ascending notice.2 ∧
      ∀ n, n ∈ notice.2 ↔ ∃ e ∈ t.choice.suppress, e.line = n)
    l'.notices (turns.filter fun t => !t.choice.suppress.isEmpty)
  /-- Then the moves are made. -/
  moved : ∃ report, done = l.moves.foldl (applyMove l.mode) ⟨(l.edited d).disk, report⟩

theorem notices_noticesOf (ts : List Turn) :
    List.Forall₂ (fun notice t => notice.1 = t.file ∧ Ordered.Ascending notice.2 ∧
      ∀ n, n ∈ notice.2 ↔ ∃ e ∈ t.choice.suppress, e.line = n)
    (noticesOf (ts.map fun t => (t.file, t.choice)))
    (ts.filter fun t => !t.choice.suppress.isEmpty) := by
  induction ts with
  | nil => exact .nil
  | cons t ts ih =>
    rw [noticesOf] at ih ⊢
    by_cases hnone : t.choice.suppress.isEmpty = true
    · rw [List.map_cons, List.filterMap_cons_none (by simp [hnone]),
        List.filter_cons_of_neg (by simp [hnone])]
      exact ih
    · rw [List.map_cons, List.filterMap_cons_some (by simp only [hnone]; rfl),
        List.filter_cons_of_pos (by simp [hnone])]
      refine .cons ⟨rfl, Ordered.ascending_ofList _, fun n => ?_⟩ ih
      rw [Ordered.mem_ofList, List.mem_map]

/-- **A ledger that can be enacted accounts for all its edits**, in whatever mode and on whatever
disk, be its files there or not, separate or one file under many names, and whatever stands in the
way of their being rewritten. -/
theorem enact_accounts (hl : l.Filed) (hd : d.IsTree) (h : l.enact d = (l', done, none)) :
    ∃ turns, Accounted l d turns l' done := by
  obtain ⟨hapart, hdone, rfl⟩ := enact_eq_ok h
  obtain ⟨hfiles, hedits, hsuppressed, hrefusals⟩ := report_enact h
  obtain ⟨ts, hts⟩ : ∃ ts, ts = turns d l.choices := ⟨_, rfl⟩
  rw [← hts] at hfiles hedits hsuppressed hrefusals
  have hmap : ts.map (fun t => (t.file, t.choice)) = l.choices := hts ▸ map_turns d l.choices
  have hsettled : ∀ t ∈ ts, t.Settled := fun t ht => settled_of_mem_turns hd hapart (hts ▸ ht)
  have hchain : Turn.Chain d ts (l.edited d).disk := by
    rw [edited, foldl_applyChoice, hts]
    exact chain_turns d l.choices
  -- the files are different ones
  have hasc : Ordered.Ascending (ts.map Turn.file) := hts ▸ ascending_turns hl d
  have hpair : ts.Pairwise fun t u => (t.file == u.file) = false := by
    rw [Ordered.Ascending, List.pairwise_map] at hasc
    refine hasc.imp fun {t u} hlt => ?_
    rw [Bool.eq_false_iff]
    intro heq
    rw [Path.compare_eq_iff.2 heq] at hlt
    cases hlt
  have hsaid : ∀ t ∈ ts, done.report.refusals t.file = t.said := by
    intro t ht
    rw [hrefusals]
    exact filter_flatMap_said (fun u hu r => refused?_of_mem_turns (hts ▸ hu)) hpair ht
  refine ⟨ts, hmap, hchain, hsettled, hsaid, fun name hname => hchain.node?_eq hsettled hname,
    fun hsep t ht => ?_, ?_, hfiles, rfl, ?_, (l.edited d).report, hdone⟩
  · have hfile : ∀ u ∈ ts, u.file ∈ l.choices.map Prod.fst := fun u hu =>
      List.mem_map_of_mem (mem_choices_of_mem_turns (hts ▸ hu))
    obtain ⟨hplace, hread⟩ := hchain.independent hsettled hd hsep hfile hasc.nodup ht
    exact ⟨Disk.read_congr hplace, hread⟩
  · have hchoices := sum_choices l
    rw [← hmap, List.map_map] at hchoices
    rw [hedits, hsuppressed, List.filter_congr fun t ht => by rw [hsaid t ht]]
    exact (sum_turns ts).trans hchoices
  · dsimp only
    rw [← hmap]
    exact notices_noticesOf ts

/-- Edits of three files, one of them a guess. -/
def threeFiles : Ledger :=
  ⟨[], [⟨⟨"/a"⟩, [⟨⟨"/a"⟩, 0, 3, "new", .certain, 1⟩]⟩, ⟨⟨"/b"⟩, [⟨⟨"/b"⟩, 0, 0, "!", .certain, 1⟩]⟩,
    ⟨⟨"/c"⟩, [⟨⟨"/c"⟩, 4, 3, "new", .ambiguous, 2⟩]⟩], [], [], 0, false⟩

/-- Two of the files. -/
def twoOfThree : Disk :=
  ⟨[], [(["a"], .file (.text "old") true), (["c"], .file (.text "one\nold") true)]⟩

/-- The two files when the first one has been rewritten. -/
def oneRewritten : Disk :=
  ⟨[], [(["a"], .file (.text "new") true), (["c"], .file (.text "one\nold") true)]⟩

theorem edit_twoOfThree :
    twoOfThree.edit ⟨"/a"⟩ [⟨⟨"/a"⟩, 0, 3, "new", .certain, 1⟩] = .ok oneRewritten := by
  have hplace : ∀ follow, twoOfThree.place follow ⟨"/a"⟩ =
      .ok (.taken ["a"] (.file (.text "old") true)) :=
    Disk.place_in_root "a" (by decide) (by decide) (by decide) twoOfThree
  have hread : twoOfThree.read ⟨"/a"⟩ = .ok "old" :=
    Disk.read_eq_ok.2 ⟨_, _, Disk.find_eq_ok.2 (hplace true)⟩
  have hsplice : Edit.splice "old".toList [⟨⟨"/a"⟩, 0, 3, "new", .certain, 1⟩] =
      .ok "new".toList := by
    rw [Edit.splice, List.mergeSort_singleton]
    rfl
  have hrewrite : twoOfThree.rewrite ⟨"/a"⟩ "new" = .ok oneRewritten := by
    have hname : (⟨"/a"⟩ : Path).fileName? = some "a" := rfl
    simp only [Disk.rewrite, Disk.isLocked, Disk.find, hplace, hname]
    rfl
  rw [Disk.edit, hread]
  dsimp only
  rw [hsplice]
  dsimp only
  rw [String.ofList_toList, hrewrite]

theorem edit_oneRewritten : oneRewritten.edit ⟨"/b"⟩ [⟨⟨"/b"⟩, 0, 0, "!", .certain, 1⟩] =
    .error (.unreadable ⟨"/b"⟩ .notFound) := by
  have hplace : oneRewritten.place true ⟨"/b"⟩ = .ok (.free [] "b" false) :=
    Disk.place_in_root "b" (by decide) (by decide) (by decide) oneRewritten true
  rw [Disk.edit, Disk.read, Disk.find, hplace]

/-- One file is rewritten, one is not there, and one has only a guess. -/
theorem enact_accounts_threeFiles :
    let l' := { threeFiles with notices := [(⟨"/c"⟩, [2])], suppressed := 1 }
    let done : Progress := ⟨⟨[], [(["a"], .file (.text "new") true),
      (["c"], .file (.text "one\nold") true)]⟩, ⟨1, 1, 1, 0, [.unreadable ⟨"/b"⟩ .notFound]⟩⟩
    threeFiles.Filed ∧ twoOfThree.IsTree ∧ threeFiles.enact twoOfThree = (l', done, none) ∧
      ∃ turns, Accounted threeFiles twoOfThree turns l' done := by
  intro l' done
  have hfiled : threeFiles.Filed := by
    unfold Filed Ordered.Ascending
    decide
  have htree : twoOfThree.IsTree := Disk.isTree_of_entries ⟨true, rfl⟩ (by decide)
  have hchoices : threeFiles.choices = [(⟨"/a"⟩, ⟨[⟨⟨"/a"⟩, 0, 3, "new", .certain, 1⟩], []⟩),
      (⟨"/b"⟩, ⟨[⟨⟨"/b"⟩, 0, 0, "!", .certain, 1⟩], []⟩),
      (⟨"/c"⟩, ⟨[], [⟨⟨"/c"⟩, 4, 3, "new", .ambiguous, 2⟩]⟩)] := rfl
  have hclash : firstClash? threeFiles.choices = none := by
    rw [firstClash?_eq_none_iff, hchoices]
    simp [Edit.Apart]
  have hdone : threeFiles.enact twoOfThree = (l', done, none) := by
    rw [enact, hclash, hchoices]
    simp only [List.foldl_cons, List.foldl_nil, applyChoice, Progress.start, List.isEmpty_cons,
      Bool.false_eq_true, if_false, edit_twoOfThree, edit_oneRewritten]
    rfl
  exact ⟨hfiled, htree, hdone, enact_accounts hfiled htree hdone⟩

end Ledger

end PhpRename
