import PhpRename.Proofs.Ledger.Gather
import PhpRename.Survey.Pass

/-!
# What proposers find

* `Findings.ofSource_proposers`: proposers learn nothing, and propose what each of them proposes at
  each site.
* `Survey.foldl_look_proposers`: so what a pass gathers depends on the files only, and on what was
  known before it.
* `Survey.lookAll_eq_foldl`: a pass looks at files that it has read.
* `Survey.lookAll_congr`: what a pass finds depends on no move, no setting and no notice.
-/

namespace PhpRename

open Php

variable {ps : List Proposer} {db : Symbols} {source : Source} {e : Edit}

/-- What the proposers propose in a file. -/
def Proposer.proposals (ps : List Proposer) (db : Symbols) (source : Source) : List Edit :=
  (Site.all source).flatMap fun s => ps.flatMap (·.edits db s)

theorem Proposer.mem_proposals : e ∈ proposals ps db source ↔
    ∃ s ∈ Site.all source, ∃ p ∈ ps, e ∈ p.edits db s := by
  simp only [proposals, List.mem_flatMap]

theorem Findings.visit_proposers (ps : List Proposer) (found : Findings) (s : Site) :
    Findings.visit (ps.map .proposer) found s =
      ⟨found.db, found.edits ++ ps.flatMap (·.edits found.db s)⟩ := by
  induction ps generalizing found with
  | nil => rw [List.flatMap_nil, List.append_nil]; rfl
  | cons p ps ih =>
    rw [List.flatMap_cons, ← List.append_assoc]
    exact ih ⟨found.db, found.edits ++ p.edits found.db s⟩

/-- **Proposers learn nothing**, and propose what each of them proposes at each site. -/
theorem Findings.ofSource_proposers (ps : List Proposer) (db : Symbols) (source : Source) :
    Findings.ofSource (ps.map .proposer) db source = ⟨db, Proposer.proposals ps db source⟩ := by
  rw [ofSource, Proposer.proposals]
  have hfold : ∀ (sites : List Site) (found : Findings),
      sites.foldl (visit (ps.map .proposer)) found =
        ⟨found.db, found.edits ++ sites.flatMap fun s => ps.flatMap (·.edits found.db s)⟩ := by
    intro sites
    induction sites with
    | nil => intro found; rw [List.flatMap_nil, List.append_nil]; rfl
    | cons s sites ih =>
      intro found
      rw [List.foldl_cons, visit_proposers, ih, List.flatMap_cons, List.append_assoc]
  rw [hfold, List.nil_append]

namespace Survey

theorem look_proposers (ps : List Proposer) (s : Survey) (source : Source) :
    (s.look (ps.map .proposer) true source).db = s.db ∧
      (s.look (ps.map .proposer) true source).ledger =
        (Proposer.proposals ps s.db source).foldl Ledger.addEdit s.ledger := by
  rw [look, Findings.ofSource_proposers]
  exact ⟨rfl, rfl⟩

/-- **What a pass of proposers gathers** is what they propose in its files, by what was known
before. -/
theorem foldl_look_proposers (ps : List Proposer) (sources : List Source) (s : Survey) :
    (sources.foldl (look (ps.map .proposer) true) s).ledger =
      (sources.flatMap (Proposer.proposals ps s.db)).foldl Ledger.addEdit s.ledger := by
  induction sources generalizing s with
  | nil => rfl
  | cons source sources ih =>
    obtain ⟨hdb, hledger⟩ := look_proposers ps s source
    rw [List.foldl_cons, ih, hdb, hledger, List.flatMap_cons, List.foldl_append]

/-- All that a pass gathers was proposed in one of its files. -/
theorem gathered_foldl_look {l : Ledger} (hl : l.changes = []) (ps : List Proposer)
    (sources : List Source) (db : Symbols) (tally : Tally) :
    ∀ file ∈ (sources.foldl (look (ps.map .proposer) true) ⟨db, l, tally⟩).ledger.changes,
      file.Gathered fun e => ∃ x ∈ sources, e ∈ Proposer.proposals ps db x := by
  rw [foldl_look_proposers]
  exact Ledger.gathered_foldl_addEdit (by rw [hl]; exact List.forall_mem_nil _)
    fun e he => List.mem_flatMap.1 he

theorem db_foldl_look_proposers (ps : List Proposer) (sources : List Source) (s : Survey) :
    (sources.foldl (look (ps.map .proposer) true) s).db = s.db :=
  List.foldlRecOn (motive := fun t : Survey => t.db = s.db) _ _ rfl
    fun t ht source _ => (look_proposers ps t source).1.trans ht

/-! ## Passes -/

variable {listeners : List Listener} {keep : Bool} {d : Disk} {paths : List Path} {s t : Survey}

/-- A pass that keeps no edits leaves the ledger as it is. -/
theorem ledger_lookAll (listeners : List Listener) (d : Disk) (paths : List Path) (s : Survey) :
    (lookAll listeners false d paths s).1.ledger = s.ledger := by
  induction paths generalizing s with
  | nil => rfl
  | cons p paths ih =>
    rw [lookAll]
    split
    · exact ih _
    · exact ih s
    · rfl

/-- **A pass looks at files that it has read**, each at its path. -/
theorem lookAll_eq_foldl (listeners : List Listener) (keep : Bool) (d : Disk) (paths : List Path)
    (s : Survey) : ∃ sources : List Source,
      (∀ x ∈ sources, ∃ p ∈ paths, ∃ content, d.read p = .ok content ∧
        x = Source.read p content) ∧
      (lookAll listeners keep d paths s).1 = sources.foldl (look listeners keep) s := by
  induction paths generalizing s with
  | nil => exact ⟨[], by simp, rfl⟩
  | cons p paths ih =>
    rw [lookAll]
    split
    · rename_i content hread
      obtain ⟨sources, hsources, he⟩ := ih (s.look listeners keep (Source.read p content))
      refine ⟨Source.read p content :: sources, List.forall_mem_cons.2 ⟨?_, ?_⟩, he⟩
      · exact ⟨p, List.mem_cons_self, content, hread, rfl⟩
      · intro x hx
        obtain ⟨q, hq, hread'⟩ := hsources x hx
        exact ⟨q, List.mem_cons_of_mem _ hq, hread'⟩
    · obtain ⟨sources, hsources, he⟩ := ih s
      refine ⟨sources, ?_, he⟩
      intro x hx
      obtain ⟨q, hq, hread⟩ := hsources x hx
      exact ⟨q, List.mem_cons_of_mem _ hq, hread⟩
    · exact ⟨[], by simp, rfl⟩

/-- A pass over files that can all be read looks at each of them. -/
theorem lookAll_of_sources {sources : List Source}
    (h : List.Forall₂ (fun p x => ∃ content, d.read p = .ok content ∧ x = Source.read p content)
      paths sources) (listeners : List Listener) (keep : Bool) (s : Survey) :
    lookAll listeners keep d paths s = (sources.foldl (look listeners keep) s, none) := by
  induction h generalizing s with
  | nil => rfl
  | cons hread _ ih =>
    obtain ⟨content, hread, rfl⟩ := hread
    rw [lookAll, hread]
    exact ih _

theorem ledger_look (listeners : List Listener) (keep : Bool) (s : Survey) (source : Source) :
    (s.look listeners keep source).ledger =
      { s.ledger with changes := (s.look listeners keep source).ledger.changes } := by
  rw [look]
  split
  · exact Ledger.foldl_addEdit ..
  · rfl

/-- A pass changes nothing in a ledger but the edits of files. -/
theorem ledger_lookAll_eq (listeners : List Listener) (keep : Bool) (d : Disk) (paths : List Path)
    (s : Survey) : (lookAll listeners keep d paths s).1.ledger =
      { s.ledger with changes := (lookAll listeners keep d paths s).1.ledger.changes } := by
  induction paths generalizing s with
  | nil => rfl
  | cons p paths ih =>
    rw [lookAll]
    split
    · rw [ih, ledger_look]
    · exact ih s
    · rfl

theorem look_congr (hdb : t.db = s.db) (hchanges : t.ledger.changes = s.ledger.changes)
    (listeners : List Listener) (keep : Bool) (source : Source) :
    (t.look listeners keep source).db = (s.look listeners keep source).db ∧
      (t.look listeners keep source).ledger.changes =
        (s.look listeners keep source).ledger.changes := by
  rw [look, look, hdb]
  cases keep with
  | false => exact ⟨rfl, hchanges⟩
  | true => exact ⟨rfl, Ledger.changes_foldl_addEdit_congr hchanges _⟩

/-- **What a pass finds** depends on the symbols and the edits before it, and on nothing else that
the ledger holds. -/
theorem lookAll_congr (hdb : t.db = s.db) (hchanges : t.ledger.changes = s.ledger.changes)
    (listeners : List Listener) (keep : Bool) (d : Disk) (paths : List Path) :
    (lookAll listeners keep d paths t).1.db = (lookAll listeners keep d paths s).1.db ∧
      (lookAll listeners keep d paths t).1.ledger.changes =
        (lookAll listeners keep d paths s).1.ledger.changes ∧
      (lookAll listeners keep d paths t).2 = (lookAll listeners keep d paths s).2 := by
  induction paths generalizing s t with
  | nil => exact ⟨hdb, hchanges, rfl⟩
  | cons p paths ih =>
    rw [lookAll, lookAll]
    split
    · obtain ⟨hdb', hchanges'⟩ := look_congr hdb hchanges listeners keep _
      exact ih hdb' hchanges'
    · exact ih hdb hchanges
    · exact ⟨hdb, hchanges, rfl⟩

/-- A pass fails over a disk only. -/
theorem lookAll_fault {failure : Failure}
    (h : (lookAll listeners keep d paths s).2 = some failure) : ∃ fault, failure = .disk fault := by
  induction paths generalizing s with
  | nil => cases h
  | cons p paths ih =>
    rw [lookAll] at h
    split at h
    · exact ih h
    · exact ih h
    · cases h; exact ⟨_, rfl⟩

end Survey

end PhpRename
