import PhpRename.Proofs.Ledger.Enact
import PhpRename.Proofs.Ledger.Gather
import PhpRename.Proofs.Session.Reached
import PhpRename.Proofs.Survey.Proposals

/-!
# A run does not fail over its own edits

A run gives up before it changes anything if chosen edits compete. Among what is certain this
never happens, however many requests there are: what the proposers of a session are certain of
is the same change or lies apart (`Proposer.apart_of_certain`), and merging keeps that
(`FileEdits.Gathered.certainApart`).

* `Reached.certain_never_clash`: the merged edits of a pass can be enacted, in any mode.
-/

namespace PhpRename.Session

open Php

variable {s : Session} {l : Ledger} {sources : List Source}

/-- After a pass over proper files, no two edits of one file that are certain compete. -/
theorem Reached.certainApart (hs : s.Reached) (hreq : Request.Agree s.requests) (db : Symbols)
    (hl : l.changes = []) (tally : Tally) (hproper : ∀ x ∈ sources, x.Proper)
    (hpaths : ∀ x ∈ sources, ∀ y ∈ sources, (x.path == y.path) = true → x = y) :
    ∀ file ∈ (sources.foldl (Survey.look (s.proposers.map .proposer) true)
      ⟨db, l, tally⟩).ledger.changes, Edit.CertainApart file.edits := by
  have hagree := hs.consistent.agree hreq
  intro file hfile
  -- what has been gathered was proposed in some file of the pass
  refine (Survey.gathered_foldl_look hl _ sources db tally file hfile).certainApart ?_
  rintro e f ⟨x, hx, he⟩ ⟨y, hy, hf⟩ hefile hec hfc
  obtain rfl := Proposer.source_eq_of_proposals hpaths hx hy he hf hefile
  exact Proposer.apart_of_certain hagree (hproper x hx) he hf hec hfc

/-- **No run fails over edits that compete.** Take any session that requests lead to, requests that
follow from a first pass included, such that the requests want the same done with what has one
name. Whatever is known, when its proposers have looked at a list of proper files, each known by its
path, and their edits have been merged, no two edits of one file, at whatever positions, compete if
both are certain. Hence the ledger can be enacted, whatever its mode. -/
theorem Reached.certain_never_clash (hs : s.Reached) (hreq : Request.Agree s.requests)
    (db : Symbols) (hl : l.changes = []) (tally : Tally) (hproper : ∀ x ∈ sources, x.Proper)
    (hpaths : ∀ x ∈ sources, ∀ y ∈ sources, (x.path == y.path) = true → x = y) :
    let gathered := (sources.foldl (Survey.look (s.proposers.map .proposer) true)
      ⟨db, l, tally⟩).ledger
    (∀ file ∈ gathered.changes, ∀ (i j : ℕ) (hi : i < file.edits.length)
      (hj : j < file.edits.length), i ≠ j → file.edits[i].confidence = .certain →
        file.edits[j].confidence = .certain → file.edits[i].overlaps file.edits[j] = false) ∧
    ∀ d : Disk, ∃ l' done, gathered.enact d = (l', done, none) := by
  intro gathered
  have hcertain := hs.certainApart hreq db hl tally hproper hpaths
  exact ⟨fun file hfile => Edit.certainApart_iff_forall.1 (hcertain file hfile),
    Ledger.exists_enact_eq_ok hcertain⟩

/-- A class that extends another one, with a method that returns a reference. -/
def extending : Source :=
  ⟨⟨"/a.php"⟩, "<?php class A extends B \x7b function &f() \x7b\x7d \x7d",
    [⟨.other, "php_tag", "<?php", 0, 1, 0⟩, ⟨.keyword, "class", "class", 6, 1, 1⟩,
      ⟨.name, "name", "A", 12, 1, 1⟩, ⟨.keyword, "extends", "extends", 14, 1, 1⟩,
      ⟨.name, "name", "B", 22, 1, 1⟩, ⟨.punct, "\x7b", "\x7b", 24, 1, 1⟩,
      ⟨.keyword, "function", "function", 26, 1, 2⟩, ⟨.punct, "&", "&", 35, 1, 2⟩,
      ⟨.name, "name", "f", 36, 1, 2⟩, ⟨.punct, "(", "(", 37, 1, 2⟩, ⟨.punct, ")", ")", 38, 1, 2⟩,
      ⟨.punct, "\x7b", "\x7b", 40, 1, 2⟩, ⟨.punct, "\x7d", "\x7d", 41, 1, 2⟩,
      ⟨.punct, "\x7d", "\x7d", 43, 1, 1⟩],
    [⟨none, none⟩, ⟨some "A", none⟩, ⟨some "A", some "f"⟩], [0]⟩

theorem proper_extending : extending.Proper := by
  refine ⟨Token.pairwise_apart (by decide), ?_⟩
  have hcalled : ∀ s ∈ Site.all extending, s.token.kind = .name →
      s.prev?.any (·.isPunct "&") = true → s.isCalled = true := by decide
  intro s hs amp declarer hk hprev hamp _ _
  refine hcalled s hs hk ?_
  rw [Site.prev?, hprev]
  exact hamp

/-- The other class and the method are to be renamed. -/
def twoRenames : Session :=
  (Session.new.renameClass "B" "C").renameMethod "A" "f" "g" true

theorem agree_twoRenames : Request.Agree twoRenames.requests := by
  have hreq : twoRenames.requests =
      [.renameClass "B" "C", .renameMethod "A" "f" "g" true] := rfl
  rw [hreq]
  have hclass : ∀ {old new}, .renameClass old new ∈ [Request.renameClass "B" "C",
      .renameMethod "A" "f" "g" true] → old = "B" ∧ new = "C" := by simp
  constructor
  · intro old new new' hmem hmem'
    rw [(hclass hmem).2, (hclass hmem').2]
  · simp
  · intro old new hmem
    rw [(hclass hmem).1]
    refine ⟨by decide, ?_⟩
    intro c hc
    obtain rfl : c = 'B' := by simpa using hc
    decide
  · intro cls old new inherited hmem
    obtain ⟨-, rfl, -⟩ : cls = "A" ∧ old = "f" ∧ new = "g" ∧ inherited = true := by simpa using hmem
    decide

theorem certain_never_clash_extending :
    twoRenames.Reached ∧ Request.Agree twoRenames.requests ∧ Ledger.new.changes = [] ∧
    (∀ x ∈ [extending], x.Proper) ∧
    (∀ x ∈ [extending], ∀ y ∈ [extending], (x.path == y.path) = true → x = y) ∧
    let gathered := ([extending].foldl (Survey.look (twoRenames.proposers.map .proposer) true)
      ⟨Symbols.empty, Ledger.new, ⟨0, 0, 0⟩⟩).ledger
    (∀ file ∈ gathered.changes, ∀ (i j : ℕ) (hi : i < file.edits.length)
      (hj : j < file.edits.length), i ≠ j → file.edits[i].confidence = .certain →
        file.edits[j].confidence = .certain → file.edits[i].overlaps file.edits[j] = false) ∧
    ∀ d : Disk, ∃ l' done, gathered.enact d = (l', done, none) := by
  have hreached : twoRenames.Reached :=
    (Reached.new.renameClass "B" "C").renameMethod "A" "f" "g" true
  have hproper : ∀ x ∈ [extending], x.Proper := by simpa using proper_extending
  have hpaths : ∀ x ∈ [extending], ∀ y ∈ [extending], (x.path == y.path) = true → x = y := by
    simp
  exact ⟨hreached, agree_twoRenames, rfl, hproper, hpaths,
    hreached.certain_never_clash agree_twoRenames Symbols.empty rfl ⟨0, 0, 0⟩ hproper hpaths⟩

end PhpRename.Session
