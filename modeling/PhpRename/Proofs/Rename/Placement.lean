import PhpRename.Proofs.Edit.Splice
import PhpRename.Proofs.Rename.Proposed

/-!
# Proposed edits are well placed

A proposed edit replaces a piece of one token. In a file that is cut into tokens, a piece of a
token is a piece of the content, so the edit fits the content.

* `Proposer.WellPlaced`: the edit lies in its token and in the content, on its line, and on the
  text that the proposer means to replace.
* `Proposer.wellPlaced_of_mem_edits`: all edits are well placed, whatever proposes them.
-/

namespace PhpRename.Proposer

open Php Text

/-- The edit is well placed, for an edit of the proposer at the site. -/
structure WellPlaced (p : Proposer) (s : Site) (e : Edit) : Prop where
  file : e.file = s.path
  /-- It lies in the token. -/
  offset_ge : s.token.offset ≤ e.offset
  stop_le : e.stop ≤ s.token.stop
  /-- It lies in the content and splits no character. -/
  fits : e.fits s.source.content.toList = true
  /-- Its line is one more than the number of newlines before it. -/
  line : e.line = (upTo s.source.content.toList e.offset).count '\n' + 1
  /-- What it replaces is what the proposer means. -/
  means : p.Means s e (slice s.source.content.toList e.offset e.stop)

variable {p : Proposer} {db : Symbols} {s : Site} {e : Edit} {source : Source}

/-- A piece of a token stands in the content as far behind the token's offset as it stands behind
the token's front. -/
theorem standsAt_content {front text : List Char}
    (htoken : StandsAt source.content.toList s.token.text.toList s.token.offset s.token.stop)
    (h : Rename.Replaced s e front text) :
    StandsAt source.content.toList text e.offset e.stop := by
  obtain ⟨rest, ht⟩ := h.stands
  have hpiece : StandsAt s.token.text.toList text (width front) (width front + width text) := by
    rw [ht]; exact standsAt_append front text rest
  have hin := htoken.within hpiece
  rwa [← h.offset, ← Nat.add_assoc, ← h.offset, ← h.length] at hin

/-- The line of an edit, also where it is taken from the token. -/
theorem line_of_replaced {front text : List Char} (ht : source.Tokenized) (hs : s ∈ Site.all source)
    (h : Rename.Replaced s e front text) :
    e.line = (upTo source.content.toList e.offset).count '\n' + 1 := by
  have htoken := ht.text _ (Site.token_mem hs)
  have hin := standsAt_content htoken h
  rcases h.line with hl | ⟨hl, hn⟩
  · rw [hl, Site.source_of_mem_all hs, ht.lineOf_eq hin.isBoundary_start]
  · -- there is no newline between the token's offset and the edit's
    rw [hl, ht.line _ (Site.token_mem hs), ht.lineOf_eq htoken.isBoundary_start]
    obtain ⟨before, after, hc, hb, -⟩ := htoken
    obtain ⟨rest, htext⟩ := h.stands
    have hcut : source.content.toList = (before ++ front) ++ (text ++ rest ++ after) := by
      rw [hc, htext]; simp only [List.append_assoc]
    have hcut' : source.content.toList = before ++ (front ++ (text ++ rest ++ after)) := by
      rw [hcut, List.append_assoc]
    have hw : width (before ++ front) = e.offset := by rw [width_append, hb, h.offset]
    have hup : upTo source.content.toList e.offset = before ++ front := by
      rw [hcut, upTo_append _ hw]
    have hup' : upTo source.content.toList s.token.offset = before := by
      rw [hcut', upTo_append _ hb]
    rw [hup, hup', List.count_append, List.count_eq_zero_of_not_mem hn, Nat.add_zero]

/-- **All edits are well placed**, whatever proposes them. -/
theorem wellPlaced_of_mem_edits (ht : source.Tokenized) (hs : s ∈ Site.all source)
    (h : e ∈ p.edits db s) : p.WellPlaced s e := by
  obtain ⟨front, text, hrep, hmeans⟩ := exists_replaced h
  have hin := standsAt_content (ht.text _ (Site.token_mem hs)) hrep
  have hsrc := Site.source_of_mem_all hs
  refine ⟨hrep.file, hrep.offset_ge, hrep.stop_le, ?_, ?_, ?_⟩
  · rw [hsrc]; exact Edit.fits_iff.2 ⟨hin.isBoundary_start, hin.isBoundary_stop⟩
  · rw [hsrc]; exact line_of_replaced ht hs hrep
  · rwa [hsrc, hin.slice_eq]

/-- **Proposed edits are well formed.** In a file that is cut into tokens, whatever is known and
whatever the parameters of a proposer are, each edit that it proposes at a site lies in the token
there, splits no character, is on the line of its offset, and replaces what the proposer means to
replace. So no list of proposed edits is ever found to lie outside the unchanged content. -/
theorem edits_wellPlaced (ht : source.Tokenized) :
    (∀ (p : Proposer) (db : Symbols), ∀ s ∈ Site.all source, ∀ e ∈ p.edits db s,
      p.WellPlaced s e) ∧
    ∀ edits : List Edit,
      (∀ e ∈ edits, ∃ (p : Proposer) (db : Symbols), ∃ s ∈ Site.all source, e ∈ p.edits db s) →
      ∀ offset length, Edit.splice source.content.toList edits ≠ .error (.outside offset length) := by
  refine ⟨fun p db s hs e he => wellPlaced_of_mem_edits ht hs he, fun edits hprop => ?_⟩
  refine Edit.splice_ne_outside fun e he => ?_
  obtain ⟨p, db, s, hs, hmem⟩ := hprop e he
  rw [← Site.source_of_mem_all hs]
  exact (wellPlaced_of_mem_edits ht hs hmem).fits

/-- A file of two lines, with a class in an annotation behind a character of two bytes. -/
def twoLines : Source :=
  ⟨⟨"/a.php"⟩, "<?php\n/** é @var Old */", [⟨.other, "php_tag", "<?php\n", 0, 1, 0⟩,
    ⟨.docComment, "comment", "/** é @var Old */", 6, 2, 0⟩], [⟨none, none⟩], [0, 6]⟩

theorem tokenized_twoLines : twoLines.Tokenized := by
  refine ⟨by decide, ?_, by decide⟩
  intro t ht
  rcases List.mem_pair.1 ht with rfl | rfl
  · exact ⟨[], "/** é @var Old */".toList, by decide, by decide, by decide⟩
  · exact ⟨"<?php\n".toList, [], by decide, by decide, by decide⟩

theorem edits_wellPlaced_twoLines :
    twoLines.Tokenized ∧
    (∀ (p : Proposer) (db : Symbols), ∀ s ∈ Site.all twoLines, ∀ e ∈ p.edits db s,
      p.WellPlaced s e) ∧
    ∀ edits : List Edit,
      (∀ e ∈ edits, ∃ (p : Proposer) (db : Symbols), ∃ s ∈ Site.all twoLines, e ∈ p.edits db s) →
      ∀ offset length, Edit.splice twoLines.content.toList edits ≠ .error (.outside offset length) :=
  ⟨tokenized_twoLines, edits_wellPlaced tokenized_twoLines⟩

end PhpRename.Proposer
