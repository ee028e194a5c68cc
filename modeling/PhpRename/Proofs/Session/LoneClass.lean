import PhpRename.Proofs.Rename.Class
import PhpRename.Proofs.Session.Held
import PhpRename.Session.Basic

/-!
# One class that is renamed

When nothing is asked for but that a class be renamed, nothing that is proposed for a file competes
(`Proposer.apart_of_ofClass`), and merging brings no competition (`FileEdits.Gathered.apart`). So no
guess is left out for the sake of another edit: a mode chooses what it admits (`choices_of_apart`).

* `lone_class_uncontested`: what is gathered, and what becomes of it in each mode.
-/

namespace PhpRename

open Php

variable {l : Ledger} {old new : String} {sources : List Source}

/-- Edits that do not compete are chosen if the mode admits them. -/
theorem Ledger.choices_of_apart (h : ∀ file ∈ l.changes, Edit.Apart file.edits) :
    l.choices = l.changes.map fun file =>
      (file.path, ⟨file.edits.filter fun e => l.mode.admits e.confidence,
        file.edits.filter fun e => !l.mode.admits e.confidence⟩) := by
  refine List.map_congr_left fun file hfile => ?_
  rw [FileEdits.choice, Choice.of_apart l.mode (h file hfile)]

/-- Such edits can be enacted. Those that are not chosen are reported, and all others are made if no
file is refused. -/
theorem Ledger.exists_enact_of_apart (h : ∀ file ∈ l.changes, Edit.Apart file.edits) (d : Disk) :
    ∃ l' done, l.enact d = (l', done, none) ∧
      done.report.suppressed = (l.changes.map fun file =>
        (file.edits.filter fun e => !l.mode.admits e.confidence).length).sum ∧
      ((∀ file, done.report.refusals file = []) →
        done.report.editsApplied + done.report.suppressed = l.editCount) := by
  obtain ⟨l', done, hdone⟩ :=
    exists_enact_eq_ok (fun file hfile => (h file hfile).imp fun h _ _ => h) d
  refine ⟨l', done, hdone, ?_, editsApplied_of_silent hdone⟩
  obtain ⟨-, -, hsuppressed, -⟩ := report_enact hdone
  have hsum : (turns d l.choices).map (fun t => t.choice.suppress.length) =
      l.choices.map fun c => c.2.suppress.length := by
    conv_rhs => rw [← map_turns d l.choices, List.map_map]
    rfl
  rw [hsuppressed, hsum, choices_of_apart h, List.map_map]
  rfl

namespace Session

/-- Nothing that is gathered when only a class is renamed competes. -/
theorem apart_of_lone_class (hold : old ≠ "") (db : Symbols) (hl : l.changes = []) (tally : Tally)
    (htokens : ∀ x ∈ sources, x.tokens.Pairwise Token.Apart)
    (hpaths : ∀ x ∈ sources, ∀ y ∈ sources, (x.path == y.path) = true → x = y) :
    ∀ file ∈ (sources.foldl (Survey.look ((Proposer.ofClass old new).map .proposer) true)
      ⟨db, l, tally⟩).ledger.changes, Edit.Apart file.edits := by
  intro file hfile
  refine (Survey.gathered_foldl_look hl _ sources db tally file hfile).apart ?_
  rintro e f ⟨x, hx, he⟩ ⟨y, hy, hf⟩ hefile
  obtain rfl := Proposer.source_eq_of_proposals hpaths hx hy he hf hefile
  exact Proposer.apart_of_ofClass hold (htokens x hx) he hf

/-- **A lone class rename has nothing contested.** Let nothing be asked for but that a class be
renamed, and let its proposers have looked at files, each known by its path, in which no two tokens
share bytes. Then no two edits of one file compete. What is proposed in an annotation is proposed
for its comment as well. An aggressive run leaves no edit out, and a conservative run leaves out
those that are still guesses. On a disk that holds the files as they were looked at, all others are
made; on any disk they are if the report says of no file that it could not be rewritten. -/
theorem lone_class_uncontested (hold : old ≠ "") (db : Symbols) (hl : l.changes = [])
    (tally : Tally) (htokens : ∀ x ∈ sources, x.tokens.Pairwise Token.Apart)
    (hpaths : ∀ x ∈ sources, ∀ y ∈ sources, (x.path == y.path) = true → x = y) :
    let proposers := (Session.new.renameClass old new).proposers
    let gathered := (sources.foldl (Survey.look (proposers.map .proposer) true)
      ⟨db, l, tally⟩).ledger
    (∀ file ∈ gathered.changes, ∀ (i j : ℕ) (hi : i < file.edits.length)
      (hj : j < file.edits.length), i ≠ j → file.edits[i].overlaps file.edits[j] = false) ∧
    (old ≠ new → ∀ x ∈ sources, ∀ s ∈ Site.all x,
      ∀ e ∈ (Proposer.annotations old new).edits db s,
        ∃ f ∈ (Proposer.comments (Mention.ofClass old new)).edits db s, e.sameChange f = true) ∧
    (l.mode = .aggressive →
      gathered.choices = gathered.changes.map (fun file => (file.path, ⟨file.edits, []⟩)) ∧
      ∀ d : Disk, ∃ l' done, gathered.enact d = (l', done, none) ∧ done.report.suppressed = 0 ∧
        (d.Holds sources → done.report.editsApplied = gathered.editCount) ∧
        ((∀ file, done.report.refusals file = []) →
          done.report.editsApplied = gathered.editCount)) ∧
    (l.mode = .conservative →
      gathered.choices = gathered.changes.map (fun file => (file.path,
        ⟨file.edits.filter (·.confidence = .certain),
          file.edits.filter (·.confidence = .ambiguous)⟩)) ∧
      ∀ d : Disk, ∃ l' done, gathered.enact d = (l', done, none) ∧
        done.report.suppressed = (gathered.changes.map fun file =>
          (file.edits.filter (·.confidence = .ambiguous)).length).sum ∧
        (d.Holds sources →
          done.report.editsApplied + done.report.suppressed = gathered.editCount) ∧
        ((∀ file, done.report.refusals file = []) →
          done.report.editsApplied + done.report.suppressed = gathered.editCount)) := by
  intro proposers gathered
  have hapart : ∀ file ∈ gathered.changes, Edit.Apart file.edits :=
    apart_of_lone_class hold db hl tally htokens hpaths
  have hmode : gathered.mode = l.mode := by
    have hlooked := Survey.foldl_look_proposers proposers sources ⟨db, l, tally⟩
    rw [Ledger.foldl_addEdit] at hlooked
    exact (congrArg Ledger.mode hlooked).trans rfl
  have hchoices := Ledger.choices_of_apart hapart
  have hheld : ∀ {d l' done}, d.Holds sources → gathered.enact d = (l', done, none) →
      ∀ file, done.report.refusals file = [] := fun hd hdone =>
    Ledger.refusals_of_holds hl proposers db tally hpaths hd hdone
  refine ⟨fun file hfile => Edit.apart_iff_forall.1 (hapart file hfile),
    fun hne x _ s _ e he => Proposer.exists_comment_of_annotation hold hne he, fun hm => ?_,
    fun hm => ?_⟩
  · rw [hmode, hm] at hchoices
    have hall : ∀ edits : List Edit, edits.filter (fun e => Mode.aggressive.admits e.confidence) =
        edits := fun edits => List.filter_eq_self.2 fun _ _ => rfl
    have hnone : ∀ edits : List Edit,
        edits.filter (fun e => !Mode.aggressive.admits e.confidence) = [] :=
      fun edits => List.filter_eq_nil_iff.2 fun _ _ => by simp [Mode.admits]
    simp only [hall, hnone] at hchoices
    refine ⟨hchoices, fun d => ?_⟩
    obtain ⟨l', done, hdone, hsuppressed, hmade⟩ := Ledger.exists_enact_of_apart hapart d
    rw [hmode, hm] at hsuppressed
    have hzero : done.report.suppressed = 0 := by
      rw [hsuppressed]
      simp [hnone]
    rw [hzero, Nat.add_zero] at hmade
    exact ⟨l', done, hdone, hzero, fun hd => hmade (hheld hd hdone), hmade⟩
  · have hcertain : ∀ e : Edit, Mode.conservative.admits e.confidence =
        decide (e.confidence = .certain) := fun _ => rfl
    have hguess : ∀ e : Edit, (!Mode.conservative.admits e.confidence) =
        decide (e.confidence = .ambiguous) := by
      intro e
      cases h : e.confidence <;> simp [Mode.admits]
    rw [hmode, hm] at hchoices
    simp only [hguess] at hchoices
    refine ⟨hchoices, fun d => ?_⟩
    obtain ⟨l', done, hdone, hsuppressed, hmade⟩ := Ledger.exists_enact_of_apart hapart d
    rw [hmode, hm] at hsuppressed
    simp only [hguess] at hsuppressed
    exact ⟨l', done, hdone, hsuppressed, fun hd => hmade (hheld hd hdone), hmade⟩

/-- A comment with an annotation and a plain mention of a class, and the class in code. -/
def annotated : Source :=
  ⟨⟨"/a.php"⟩, "<?php /** @var A of an A */ new A;",
    [⟨.other, "php_tag", "<?php", 0, 1, 0⟩, ⟨.docComment, "comment", "/** @var A of an A */", 6, 1, 0⟩,
      ⟨.keyword, "new", "new", 28, 1, 0⟩, ⟨.name, "name", "A", 32, 1, 0⟩, ⟨.punct, ";", ";", 33, 1, 0⟩],
    [⟨none, none⟩], [0]⟩

/-- The file where it was read. -/
def annotatedDisk : Disk :=
  ⟨[], [(["a.php"], .file (.text annotated.content) true)]⟩

theorem tokenized_annotated : annotated.Tokenized := by
  -- all characters are of one byte, so that bytes are places in the list of characters
  have hstands : ∀ t ∈ annotated.tokens,
      let before := annotated.content.toList.take t.offset
      annotated.content.toList =
        before ++ t.text.toList ++ annotated.content.toList.drop t.stop ∧
      Text.width before = t.offset ∧ Text.width (before ++ t.text.toList) = t.stop := by decide
  exact ⟨by decide, fun t ht => ⟨_, _, hstands t ht⟩, by decide⟩

theorem holds_annotated : annotatedDisk.Holds [annotated] := by
  have hplace : annotatedDisk.place true annotated.path =
      .ok (.taken ["a.php"] (.file (.text annotated.content) true)) :=
    Disk.place_in_root "a.php" (by decide) (by decide) (by decide) annotatedDisk true
  have hfind := Disk.find_eq_ok.2 hplace
  refine ⟨Disk.isTree_of_entries ⟨true, rfl⟩ (by decide), ⟨?_, ?_⟩, ?_, ?_, ?_⟩
  · simp [hplace]
  · simp
  · simpa using tokenized_annotated
  · simpa using Disk.read_eq_ok.2 ⟨_, _, hfind⟩
  · have hlocked : annotatedDisk.isLocked annotated.path = false := by rw [Disk.isLocked, hfind]; rfl
    simpa using ⟨hlocked, by decide, by decide⟩

/-- The annotation is proposed twice. -/
theorem proposals_annotated : Proposer.proposals (Proposer.ofClass "A" "B") Symbols.empty annotated =
    [⟨⟨"/a.php"⟩, 15, 1, "B", .certain, 1⟩, ⟨⟨"/a.php"⟩, 15, 1, "B", .ambiguous, 1⟩,
      ⟨⟨"/a.php"⟩, 23, 1, "B", .ambiguous, 1⟩, ⟨⟨"/a.php"⟩, 32, 1, "B", .certain, 1⟩] := by
  have hclasses : ∀ s ∈ Site.all annotated, Rename.classEdits "A" "B" s =
      if s.token.kind = .name then [Rename.replaceToken s "B" .certain] else [] := by
    have hnew : Rename.precedesMember ⟨.keyword, "new", "new", 28, 1, 0⟩ = false := by decide +kernel
    simp [Site.all, Site.sitesFrom, annotated, Rename.classEdits, Rename.beforeQualified, Rename.joins,
      Site.code, Token.isComment, Token.isKeyword, Token.isPunct, hnew]
  have hfind : ∀ text, Mention.find (Mention.ofClass "A" "B") text =
      (Mention.wordPlaces ['A'] text).map (Mention.wordPlace "A" "B") :=
    Mention.find_ofClass (by decide)
  simp only [Proposer.proposals, Proposer.ofClass, List.flatMap_cons, List.flatMap_nil, Proposer.edits,
    Rename.commentEdits, Rename.stringEdits, Rename.mentionEdits, hfind]
  rw [List.flatMap_congr fun s hs => by rw [hclasses s hs]]
  rfl

/-- The annotation is certain, although the comment was proposed as a guess as well; the plain mention
stays a guess. A conservative run leaves it out alone, and an aggressive run does not, where the file
is as it was looked at. -/
theorem lone_class_uncontested_annotated :
    let gathered := fun l : Ledger => ([annotated].foldl
      (Survey.look ((Session.new.renameClass "A" "B").proposers.map .proposer) true)
      ⟨Symbols.empty, l, ⟨0, 0, 0⟩⟩).ledger
    let bold := { Ledger.new with settings := [(Setting.modeKey, Setting.ofMode .aggressive)] }
    "A" ≠ "" ∧ Ledger.new.changes = [] ∧ (∀ x ∈ [annotated], x.tokens.Pairwise Token.Apart) ∧
    (∀ x ∈ [annotated], ∀ y ∈ [annotated], (x.path == y.path) = true → x = y) ∧
    annotatedDisk.Holds [annotated] ∧
    (gathered Ledger.new).changes = [⟨⟨"/a.php"⟩, [⟨⟨"/a.php"⟩, 15, 1, "B", .certain, 1⟩,
      ⟨⟨"/a.php"⟩, 23, 1, "B", .ambiguous, 1⟩, ⟨⟨"/a.php"⟩, 32, 1, "B", .certain, 1⟩]⟩] ∧
    (∀ file ∈ (gathered Ledger.new).changes, ∀ (i j : ℕ) (hi : i < file.edits.length)
      (hj : j < file.edits.length), i ≠ j → file.edits[i].overlaps file.edits[j] = false) ∧
    (∀ d : Disk, ∃ l' done, (gathered Ledger.new).enact d = (l', done, none) ∧
      done.report.suppressed = 1 ∧ (d.Holds [annotated] → done.report.editsApplied = 2)) ∧
    ∃ l' done, (gathered bold).enact annotatedDisk = (l', done, none) ∧
      done.report.suppressed = 0 ∧ done.report.editsApplied = 3 := by
  intro gathered bold
  have htokens : ∀ x ∈ [annotated], x.tokens.Pairwise Token.Apart := by
    have hinOrder : annotated.tokens.Pairwise fun t u => t.stop ≤ u.offset := by decide
    simpa using Token.pairwise_apart hinOrder
  have hpaths : ∀ x ∈ [annotated], ∀ y ∈ [annotated], (x.path == y.path) = true → x = y := by simp
  have hgathered : ∀ l : Ledger, l.changes = [] → (gathered l).changes =
      [⟨⟨"/a.php"⟩, [⟨⟨"/a.php"⟩, 15, 1, "B", .certain, 1⟩,
        ⟨⟨"/a.php"⟩, 23, 1, "B", .ambiguous, 1⟩, ⟨⟨"/a.php"⟩, 32, 1, "B", .certain, 1⟩]⟩] := by
    intro l hl
    have hproposers : (Session.new.renameClass "A" "B").proposers = Proposer.ofClass "A" "B" := rfl
    simp only [gathered]
    rw [Survey.foldl_look_proposers, hproposers, List.flatMap_singleton, proposals_annotated,
      Ledger.changes_foldl_addEdit hl]
    rfl
  have hchanges := hgathered Ledger.new rfl
  have hcount : ∀ l : Ledger, l.changes = [] → (gathered l).editCount = 3 := by
    intro l hl
    rw [Ledger.editCount_eq, hgathered l hl]
    rfl
  obtain ⟨hapart, -, -, hconservative⟩ := @lone_class_uncontested Ledger.new "A" "B" [annotated]
    (by decide) Symbols.empty rfl ⟨0, 0, 0⟩ htokens hpaths
  obtain ⟨-, -, haggressive, -⟩ := @lone_class_uncontested bold "A" "B" [annotated]
    (by decide) Symbols.empty rfl ⟨0, 0, 0⟩ htokens hpaths
  refine ⟨by decide, rfl, htokens, hpaths, holds_annotated, hchanges, hapart, fun d => ?_, ?_⟩
  · obtain ⟨l', done, hdone, hsuppressed, hmade, -⟩ := (hconservative rfl).2 d
    have hone : done.report.suppressed = 1 := by
      refine hsuppressed.trans ?_
      change ((gathered Ledger.new).changes.map _).sum = 1
      rw [hchanges]
      rfl
    refine ⟨l', done, hdone, hone, fun hd => ?_⟩
    have hall : done.report.editsApplied + done.report.suppressed = (gathered Ledger.new).editCount :=
      hmade hd
    rw [hcount Ledger.new rfl, hone] at hall
    exact Nat.succ.inj hall
  · obtain ⟨l', done, hdone, hnone, hmade, -⟩ := (haggressive rfl).2 annotatedDisk
    exact ⟨l', done, hdone, hnone, (hmade holds_annotated).trans (hcount bold rfl)⟩

end Session

end PhpRename
