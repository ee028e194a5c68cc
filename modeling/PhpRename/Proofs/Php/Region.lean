import PhpRename.Php.Cut

/-!
# Tags and the text between them

Code runs from an opening tag to the next closing one: from a word on, no lexeme is a tag, or text
outside the tags, before a closing tag has come.

* `inCode`: the lexemes are code, up to a closing tag.
* `inCode_of_word`: so are those behind a word.
-/

namespace PhpRename.Php

/-- The lexemes are neither opening tags nor text outside the tags, up to a closing tag. -/
def inCode : List Lexeme → Bool
  | [] => true
  | l :: ls => l.kind = .closeTag || l.kind ≠ .markup && l.kind ≠ .openTag && inCode ls

namespace Cutter

/-- The cutter is not outside the tags, and comes to be so by a closing tag only. -/
structure Inside (st : Cutter) : Prop where
  region : st.region ≠ .markup
  outer : .markup ∉ st.outer

/-- What is cut off inside the tags, and what comes after it. -/
structure Piece.Inside (piece : Piece) : Prop where
  kind : piece.kind ≠ .markup ∧ piece.kind ≠ .openTag
  outer : .markup ∉ piece.next.outer
  region : piece.kind ≠ .closeTag → piece.next.region ≠ .markup

variable {st : Cutter} {cs : List Char}

theorem Inside.enter (h : st.Inside) {r : Region} (hr : r ≠ .markup) : (st.enter r).Inside :=
  ⟨hr, by simpa [Cutter.enter] using ⟨h.region.symm, h.outer⟩⟩

theorem Inside.leave (h : st.Inside) : st.leave.Inside := by
  obtain ⟨hregion, houter⟩ := h
  unfold Cutter.leave
  split
  · exact ⟨hregion, houter⟩
  · rename_i hst
    rw [hst, List.mem_cons, not_or] at houter
    exact ⟨fun he => houter.1 he.symm, houter.2⟩

theorem Inside.piece (h : st.Inside) {kind : Lexeme.Kind} (hkind : kind ≠ .markup ∧ kind ≠ .openTag)
    (extra : Nat) : Piece.Inside ⟨kind, extra, st⟩ :=
  ⟨hkind, h.outer, fun _ => h.region⟩

/-- Whether an operand has ended, and code of another region, make no difference. -/
theorem Inside.change (h : st.Inside) {r : Region} (hr : r ≠ .markup) (operand : Bool) :
    ({ st with region := r, afterOperand := operand } : Cutter).Inside :=
  ⟨hr, h.outer⟩

theorem Inside.operand (h : st.Inside) (operand : Bool) :
    ({ st with afterOperand := operand } : Cutter).Inside :=
  ⟨h.region, h.outer⟩

theorem inside_nextMark (h : st.Inside) (cs : List Char) : (nextMark st cs).Inside := by
  unfold nextMark
  dsimp only
  refine Inside.piece ?_ (by exact ⟨nofun, nofun⟩) _
  split
  · exact h.change (by exact nofun) _
  · exact h.leave.operand _
  · exact h.change (by exact nofun) _
  · exact h.leave
  · exact h.change (by exact nofun) _
  · exact h.operand _

theorem inside_nextWord (h : st.Inside) (cs : List Char) : (nextWord st cs).Inside := by
  have hst : (if st.region = .member then st.leave else st).Inside := by
    split
    · exact h.leave
    · exact h
  unfold nextWord
  dsimp only
  split
  · exact (hst.operand _).piece (by exact ⟨nofun, nofun⟩) _
  · exact (hst.operand _).piece (by exact ⟨nofun, nofun⟩) _

theorem inside_nextCode (h : st.Inside) (cs : List Char) : (nextCode st cs).Inside := by
  have hmark := inside_nextMark h cs
  have hword := inside_nextWord h cs
  unfold nextCode
  dsimp only
  split
  case h_2 => exact ⟨⟨nofun, nofun⟩, h.outer, fun hne => absurd rfl hne⟩
  all_goals
    repeat' split
  all_goals first
    | exact hmark
    | exact hword
    | exact h.piece (by exact ⟨nofun, nofun⟩) _
    | exact (h.operand _).piece (by exact ⟨nofun, nofun⟩) _
    | exact (h.enter (by exact nofun)).piece (by exact ⟨nofun, nofun⟩) _

theorem inside_nextShell (h : st.Inside) (cs : List Char) : (nextShell st cs).Inside := by
  unfold nextShell
  dsimp only
  repeat' split
  all_goals first
    | exact h.piece (by exact ⟨nofun, nofun⟩) _
    | exact h.leave.piece (by exact ⟨nofun, nofun⟩) _
    | exact (h.operand _).piece (by exact ⟨nofun, nofun⟩) _
    | exact (h.enter (by exact nofun)).piece (by exact ⟨nofun, nofun⟩) _

theorem inside_next (h : st.Inside) (cs : List Char) : (st.next cs).Inside := by
  unfold next
  split
  · exact absurd ‹_› h.region
  · exact inside_nextShell h cs
  · exact inside_nextCode h cs

theorem Piece.Inside.next {piece : Piece} (h : piece.Inside) (hkind : piece.kind ≠ .closeTag) :
    piece.next.Inside :=
  ⟨h.region hkind, h.outer⟩

/-- Outside the tags there are no words, and the regions around stay as they are. -/
theorem nextMarkup_word (st : Cutter) (cs : List Char) :
    (nextMarkup st cs).kind ≠ .word ∧ (nextMarkup st cs).next.outer = st.outer := by
  unfold nextMarkup
  split
  · exact ⟨nofun, rfl⟩
  · split <;> exact ⟨nofun, rfl⟩
  · exact ⟨nofun, rfl⟩

/-- The regions around never are outside the tags. -/
theorem outer_next (houter : .markup ∉ st.outer) (cs : List Char) :
    .markup ∉ (st.next cs).next.outer := by
  by_cases hregion : st.region = .markup
  · rw [next, hregion]
    exact (nextMarkup_word st cs).2 ▸ houter
  · exact (inside_next ⟨hregion, houter⟩ cs).outer

/-- From inside the tags, there is code up to a closing tag. -/
theorem inCode_run (h : st.Inside) (offset line : Nat) (cs : List Char) :
    inCode (run st offset line cs) = true := by
  fun_induction run st offset line cs with
  | case1 => rfl
  | case2 st offset line c cs piece chars ih =>
    have hpiece : piece.Inside := inside_next h (c :: cs)
    rw [inCode]
    by_cases hkind : piece.kind = .closeTag
    · simp [hkind]
    · simp [hpiece.kind, ih (hpiece.next hkind)]

theorem inCode_of_suffix_run {l : Lexeme} {ls : List Lexeme} (houter : .markup ∉ st.outer)
    {offset line : Nat} (h : l :: ls <:+ run st offset line cs) (hl : l.kind = .word) :
    inCode ls = true := by
  fun_induction run st offset line cs with
  | case1 => cases List.suffix_nil.1 h
  | case2 st offset line c cs piece chars ih =>
    rcases List.suffix_cons_iff.1 h with he | h
    · obtain ⟨rfl, rfl⟩ := List.cons.inj he
      have hregion : st.region ≠ .markup := by
        intro hregion
        have hword : (st.next (c :: cs)).kind = .word := hl
        rw [next, hregion] at hword
        exact (nextMarkup_word st (c :: cs)).1 hword
      have hpiece : piece.Inside := inside_next ⟨hregion, houter⟩ (c :: cs)
      have hkind : piece.kind ≠ .closeTag := fun he => by cases hl.symm.trans he
      exact inCode_run (hpiece.next hkind) _ _ _
    · exact ih (outer_next houter (c :: cs)) h

end Cutter

/-- **Behind a word there is code**, up to a closing tag. -/
theorem inCode_of_word {content : List Char} {l : Lexeme} {ls : List Lexeme}
    (h : l :: ls <:+ lexemes content) (hl : l.kind = .word) : inCode ls = true := by
  have houter : .markup ∉ Cutter.start.outer := List.not_mem_nil
  unfold lexemes at h
  split at h
  · cases List.suffix_nil.1 h
  split at h
  · rcases List.suffix_cons_iff.1 h with he | h
    · cases he
      cases hl
    · exact Cutter.inCode_of_suffix_run houter h hl
  · exact Cutter.inCode_of_suffix_run houter h hl

end PhpRename.Php
