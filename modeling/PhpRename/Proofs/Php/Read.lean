import Mathlib.Data.List.Pairwise
import PhpRename.Php.Source
import PhpRename.Proofs.Text.Boundary

/-!
# Tokens of a file that has been read

Each lexeme takes at least one character and begins where the one before it ends. The reader gives
each lexeme at most one token, in its place, so the tokens of a file begin one after the other.

* `Source.Ascending`: no two tokens begin at one offset, and they are in order.
* `Source.ascending_read`: every file that has been read is like that, whatever it holds.
-/

namespace PhpRename.Php

open Text

/-- Some files, read in order. -/
def Source.readAll (files : List (Path × String)) : List Source :=
  files.map fun file => Source.read file.1 file.2

/-- The tokens begin one after the other. -/
def Source.Ascending (s : Source) : Prop :=
  s.tokens.Pairwise fun t u => t.offset < u.offset

namespace Cutter

theorem offset_le_of_mem_run {st : Cutter} {offset line : Nat} {cs : List Char} {l : Lexeme}
    (h : l ∈ run st offset line cs) : offset ≤ l.offset := by
  fun_induction run st offset line cs with
  | case1 => cases h
  | case2 st offset line c cs piece chars ih =>
    rcases List.mem_cons.1 h with rfl | h
    · exact Nat.le_refl offset
    · exact Nat.le_trans (Nat.le_add_right offset (width chars)) (ih h)

/-- **Lexemes begin one after the other.** -/
theorem pairwise_run (st : Cutter) (offset line : Nat) (cs : List Char) :
    (run st offset line cs).Pairwise fun l m => l.offset < m.offset := by
  fun_induction run st offset line cs with
  | case1 => exact .nil
  | case2 st offset line c cs piece chars ih =>
    refine List.pairwise_cons.2 ⟨fun m hm => ?_, ih⟩
    have hle := offset_le_of_mem_run hm
    have hpos : 0 < width chars := width_pos c _
    dsimp only
    omega

end Cutter

theorem pairwise_lexemes (content : List Char) :
    (lexemes content).Pairwise fun l m => l.offset < m.offset := by
  unfold lexemes
  split
  · exact .nil
  · rename_i c cs
    split
    · refine List.pairwise_cons.2 ⟨fun m hm => ?_, Cutter.pairwise_run ..⟩
      exact Nat.lt_of_lt_of_le (width_pos c []) (Cutter.offset_le_of_mem_run hm)
    · exact Cutter.pairwise_run ..

/-- The reader leaves lexemes out, and moves none. -/
theorem Reader.offsets_run (st : Reader) (look ls : List Lexeme) :
    ((st.run look ls).1.map (·.offset)).Sublist (ls.map (·.offset)) := by
  induction ls generalizing st look with
  | nil => exact List.Sublist.refl _
  | cons l rest ih =>
    rw [run]
    split
    · exact (ih st look).cons _
    split
    · exact (ih st look).cons_cons _
    · exact (ih _ _).cons_cons _

/-- **The tokens of a file begin one after the other**, whatever has been read. -/
theorem Source.ascending_read (path : Path) (content : String) :
    (Source.read path content).Ascending := by
  have hls := List.pairwise_map.2 (pairwise_lexemes content.toList)
  exact List.pairwise_map.1 (hls.sublist (Reader.offsets_run Reader.start _ _))

end PhpRename.Php
