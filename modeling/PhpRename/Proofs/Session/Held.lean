import PhpRename.Proofs.Ledger.Account
import PhpRename.Proofs.Rename.Certain
import PhpRename.Proofs.Rename.Placement
import PhpRename.Proofs.Survey.Proposals

/-!
# Files that are as they were read

Edits are proposed for a file as it was read. On a disk that still holds it so, they fit it, whatever
proposed them and whatever the mode chooses. So nothing but the leave to change the file can be
missing.

* `Disk.Holds`: the disk holds files as they were looked at, and lets them be rewritten.
* `Ledger.refusals_of_holds`: then the edits of no file are refused.
-/

namespace PhpRename

open Php

variable {d : Disk} {sources : List Source} {l l' : Ledger} {done : Progress}

/-- The disk holds the files as they were looked at. Each of them can be rewritten, and no two are
one file. -/
structure Disk.Holds (d : Disk) (sources : List Source) : Prop where
  isTree : d.IsTree
  separate : d.Separate (sources.map Source.path)
  tokenized : ∀ x ∈ sources, x.Tokenized
  read : ∀ x ∈ sources, d.read x.path = .ok x.content
  rewritable : ∀ x ∈ sources, d.Rewritable x.path

namespace Ledger

/-- What is gathered for a file was proposed where that was looked at, and fits it. -/
theorem exists_source_of_mem_changes (hl : l.changes = []) (ps : List Proposer) (db : Symbols)
    (tally : Tally) (htokenized : ∀ x ∈ sources, x.Tokenized)
    (hpaths : ∀ x ∈ sources, ∀ y ∈ sources, (x.path == y.path) = true → x = y) {file : FileEdits}
    (hfile : file ∈
      (sources.foldl (Survey.look (ps.map .proposer) true) ⟨db, l, tally⟩).ledger.changes) :
    ∃ x ∈ sources, file.path = x.path ∧ ∀ e ∈ file.edits, e.fits x.content.toList = true := by
  have hgathered := Survey.gathered_foldl_look hl ps sources db tally file hfile
  -- the file is spelled as in the first proposal for it
  rw [Survey.foldl_look_proposers, changes_foldl_addEdit hl] at hfile
  obtain ⟨p, hp, rfl⟩ := List.mem_map.1 hfile
  obtain ⟨e, he, rfl⟩ := List.mem_map.1 (Ordered.mem_of_mem_ofList hp)
  obtain ⟨x, hx, he⟩ := List.mem_flatMap.1 he
  refine ⟨x, hx, Proposer.file_of_mem_proposals he, fun e' he' => ?_⟩
  obtain ⟨f, ⟨⟨y, hy, hf⟩, hfe⟩, hsame, -⟩ := hgathered.origin e' he'
  obtain rfl := Proposer.source_eq_of_proposals hpaths hy hx hf he hfe
  obtain ⟨s, hs, p, -, hf⟩ := Proposer.mem_proposals.1 hf
  have hfits := (Proposer.wellPlaced_of_mem_edits (htokenized y hy) hs hf).fits
  obtain ⟨hoffset, hlength, -⟩ := Edit.sameChange_iff.1 hsame
  rwa [Site.source_of_mem_all hs, Edit.fits, Edit.stop, hoffset, hlength] at hfits

/-- **Where files are as they were read, no edits are refused**, whatever proposed them and
whatever the mode chooses. -/
theorem refusals_of_holds (hl : l.changes = []) (ps : List Proposer) (db : Symbols) (tally : Tally)
    (hpaths : ∀ x ∈ sources, ∀ y ∈ sources, (x.path == y.path) = true → x = y) (hd : d.Holds sources)
    (h : (sources.foldl (Survey.look (ps.map .proposer) true) ⟨db, l, tally⟩).ledger.enact d =
      (l', done, none)) (file : Path) : done.report.refusals file = [] := by
  obtain ⟨gathered, hgathered⟩ : ∃ gathered,
      (sources.foldl (Survey.look (ps.map .proposer) true) ⟨db, l, tally⟩).ledger = gathered := ⟨_, rfl⟩
  rw [hgathered] at h
  have hfiled : gathered.Filed := by
    rw [← hgathered, Survey.foldl_look_proposers]
    exact (filed_of_changes_eq_nil hl).foldl_addEdit _
  have hsource : ∀ c ∈ gathered.choices,
      ∃ x ∈ sources, c.1 = x.path ∧ ∀ e ∈ c.2.apply, e.fits x.content.toList = true := by
    intro c hc
    obtain ⟨file, hfile, rfl⟩ := List.mem_map.1 hc
    obtain ⟨x, hx, hpath, hfits⟩ :=
      exists_source_of_mem_changes hl ps db tally hd.tokenized hpaths (hgathered ▸ hfile)
    exact ⟨x, hx, hpath, fun e he => hfits e ((Choice.apply_sublist _ _).subset he)⟩
  refine refusals_eq_nil hfiled hd.isTree (hd.separate.mono fun p hp => ?_) h (fun c hc => ?_) file
  · obtain ⟨c, hc, rfl⟩ := List.mem_map.1 hp
    obtain ⟨x, hx, hpath, -⟩ := hsource c hc
    exact hpath ▸ List.mem_map_of_mem hx
  · obtain ⟨x, hx, hpath, hfits⟩ := hsource c hc
    exact ⟨x.content, hpath ▸ hd.read x hx, hpath ▸ hd.rewritable x hx, hfits⟩

end Ledger

end PhpRename
