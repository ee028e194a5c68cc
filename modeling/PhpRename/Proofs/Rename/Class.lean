import PhpRename.Proofs.Doc.Word
import PhpRename.Proofs.Mention.Class
import PhpRename.Proofs.Rename.Certain

/-!
# What the renaming of a class proposes

Four proposers take part when a class is renamed. Two of them read a doc comment: one looks for the
name in the lists of types of annotations, the other in the whole comment. What the first one finds
the other one finds as well (`exists_comment_of_annotation`). So whatever is proposed is that the
name gives way to the new one, at a place where it stands.

* `ofClass_at`: where it stands: it is the whole token, or one of the places of a word in it.
* `apart_of_ofClass`: two edits of a file make the same change, or do not compete.
-/

namespace PhpRename.Proposer

open Php Text

variable {p q : Proposer} {db : Symbols} {s : Site} {e f : Edit} {source : Source}
  {old new : String}

/-- An annotation names the class at a place of its name in the doc comment. -/
theorem place_of_annotation (hold : old ≠ "") (h : e ∈ Rename.annotationEdits old new s) :
    ∃ i ∈ Mention.wordPlaces old.toList s.token.text.toList,
      e = Rename.replaceWithin s i old.utf8ByteSize new .certain := by
  obtain ⟨-, start, types, place, ht, hp, rfl⟩ := Rename.mem_annotationEdits.1 h
  have hne : old.toList ≠ [] := fun he => hold (String.toList_injective he)
  exact ⟨start + place, Doc.mem_wordPlaces_of_mem_typeLists hne ht hp, rfl⟩

/-- A mention of the class stands at a place of its name. -/
theorem place_of_mention (h : e ∈ Rename.mentionEdits (Mention.ofClass old new) s) :
    ∃ i ∈ Mention.wordPlaces old.toList s.token.text.toList,
      e = Rename.replaceWithin s i old.utf8ByteSize new .ambiguous := by
  obtain ⟨place, hp, rfl⟩ := Rename.mem_mentionEdits.1 h
  obtain ⟨i, hi, rfl⟩ := Mention.exists_wordPlaces_of_mem_find hp
  exact ⟨i, hi, by rw [Nat.add_sub_cancel_left]⟩

/-- **What an annotation proposes the comment proposes as well**, as a guess. -/
theorem exists_comment_of_annotation (hold : old ≠ "") (hne : old ≠ new)
    (h : e ∈ (annotations old new).edits db s) :
    ∃ f ∈ (comments (Mention.ofClass old new)).edits db s, e.sameChange f = true := by
  have hkind : s.token.kind = .docComment := (Rename.mem_annotationEdits.1 h).1
  obtain ⟨i, hi, rfl⟩ := place_of_annotation hold h
  refine ⟨Rename.replaceWithin s i old.utf8ByteSize new .ambiguous, ?_,
    Edit.sameChange_iff.2 ⟨rfl, rfl, rfl⟩⟩
  refine Rename.mem_commentEdits.2 ⟨by simp [Token.isComment, hkind], ?_⟩
  refine Rename.mem_mentionEdits.2 ⟨_, (Mention.mem_find_ofClass hne).2 ⟨i, hi, rfl⟩, ?_⟩
  rw [Nat.add_sub_cancel_left]

/-- What the proposer for a class replaces: the whole token, which is a name, or the class where a
token that is no name mentions it. -/
theorem ofClass_at (hold : old ≠ "") (hp : p ∈ ofClass old new) (h : e ∈ p.edits db s) :
    e.length = old.utf8ByteSize ∧ e.replacement = new ∧
      ((s.token.kind = .name ∧ e.offset = s.token.offset) ∨
        (s.token.kind ≠ .name ∧ ∃ i ∈ Mention.wordPlaces old.toList s.token.text.toList,
          e.offset = s.token.offset + i)) := by
  have hp' : p = classes old new ∨ p = annotations old new ∨
      p = comments (Mention.ofClass old new) ∨ p = strings (Mention.ofClass old new) := by
    simpa [ofClass] using hp
  rcases hp' with rfl | rfl | rfl | rfl
  · obtain ⟨hkind, rfl, -, -, rfl⟩ := Rename.mem_classEdits.1 h
    exact ⟨rfl, rfl, .inl ⟨hkind, rfl⟩⟩
  · have hkind := (Rename.mem_annotationEdits.1 h).1
    obtain ⟨i, hi, rfl⟩ := place_of_annotation hold h
    exact ⟨rfl, rfl, .inr ⟨by rw [hkind]; decide, i, hi, rfl⟩⟩
  · obtain ⟨hkind, h⟩ := Rename.mem_commentEdits.1 h
    obtain ⟨i, hi, rfl⟩ := place_of_mention h
    refine ⟨rfl, rfl, .inr ⟨?_, i, hi, rfl⟩⟩
    intro hname
    simp [Token.isComment, hname] at hkind
  · obtain ⟨hkind, -, h⟩ := Rename.mem_stringEdits.1 h
    obtain ⟨i, hi, rfl⟩ := place_of_mention h
    exact ⟨rfl, rfl, .inr ⟨by rw [hkind]; decide, i, hi, rfl⟩⟩

/-- At one site two edits make the same change, or do not compete. -/
theorem apart_of_ofClass_at (hold : old ≠ "") (hp : p ∈ ofClass old new) (hq : q ∈ ofClass old new)
    (he : e ∈ p.edits db s) (hf : f ∈ q.edits db s) :
    e.sameChange f = true ∨ e.overlaps f = false := by
  obtain ⟨hel, her, heat⟩ := ofClass_at hold hp he
  obtain ⟨hfl, hfr, hfat⟩ := ofClass_at hold hq hf
  have hsame : e.offset = f.offset → e.sameChange f = true := fun hoff =>
    Edit.sameChange_iff.2 ⟨hoff, hel.trans hfl.symm, her.trans hfr.symm⟩
  rcases heat with ⟨hname, heo⟩ | ⟨hother, i, hi, heo⟩
  · rcases hfat with ⟨-, hfo⟩ | ⟨hother, -⟩
    · exact .inl (hsame (heo.trans hfo.symm))
    · exact absurd hname hother
  · rcases hfat with ⟨hname, -⟩ | ⟨-, j, hj, hfo⟩
    · exact absurd hname hother
    · rcases Mention.wordPlaces_apart hi hj with rfl | hapart
      · exact .inl (hsame (heo.trans hfo.symm))
      · have hpos := utf8ByteSize_pos hold
        rw [← utf8ByteSize_eq_width] at hapart
        refine .inr ?_
        rw [Bool.eq_false_iff, ne_eq, Edit.overlaps_iff]
        unfold Edit.stop
        omega

/-- **Nothing that the renaming of a class proposes competes**, if it is not the same change: in a
file the tokens of which share no bytes. -/
theorem apart_of_ofClass (hold : old ≠ "") (hsource : source.tokens.Pairwise Token.Apart)
    (he : e ∈ proposals (ofClass old new) db source)
    (hf : f ∈ proposals (ofClass old new) db source) :
    e.sameChange f = true ∨ e.overlaps f = false := by
  obtain ⟨s, hs, p, hp, he⟩ := mem_proposals.1 he
  obtain ⟨t, ht, q, hq, hf⟩ := mem_proposals.1 hf
  rcases Site.eq_or_apart hsource hs ht with rfl | hapart
  · exact apart_of_ofClass_at hold hp hq he hf
  · have hpos := utf8ByteSize_pos hold
    have hel : 0 < e.length := by rw [(ofClass_at hold hp he).1]; exact hpos
    have hfl : 0 < f.length := by rw [(ofClass_at hold hq hf).1]; exact hpos
    exact .inr (overlaps_eq_false hapart (bounds_of_length_pos he hel) (bounds_of_length_pos hf hfl))

end PhpRename.Proposer
