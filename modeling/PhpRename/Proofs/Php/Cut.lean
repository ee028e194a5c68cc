import Mathlib.Data.List.TakeWhile
import PhpRename.Php.Cut
import PhpRename.Proofs.Text.Occurrence

/-!
# Lexemes are the text, cut up

The cutter takes at least one character off the text at each place, and leaves nothing out. So its
lexemes, one after the other, are the text again; each begins where the one before it ends, and is
told its place and its line by what stands in front of it.

* `Lexeme.Cuts`: a list of lexemes is a text, cut up.
* `cuts_lexemes`: the lexemes of a file are its content, whatever it holds.
* `Lexeme.Cuts.placed`, `Lexeme.Cuts.pairwise`, `Lexeme.Cuts.covers`: where lexemes stand, in what
  order, and that all but blanks is in one of them.
-/

namespace PhpRename.Php

open Text

/-- A piece of a file: its text, and the byte offset and the line of its first character. -/
structure Span where
  text : String
  offset : Nat
  line : Nat

namespace Span

/-- The offset just after the piece. -/
def stop (s : Span) : Nat :=
  s.offset + s.text.utf8ByteSize

/-- The piece holds something, and stands in the content where it says, on the line it says. -/
structure Placed (s : Span) (content : List Char) : Prop where
  holds : s.text ≠ ""
  stands : StandsAt content s.text.toList s.offset s.stop
  line : s.line = Cutter.newlines (upTo content s.offset) + 1

/-- The byte at this offset belongs to the piece. -/
def Has (s : Span) (n : Nat) : Prop :=
  s.offset ≤ n ∧ n < s.stop

end Span

/-- Where the lexeme stands. -/
def Lexeme.span (l : Lexeme) : Span :=
  ⟨l.text, l.offset, l.line⟩

/-- The lexemes are the text, cut up. `front` is what stands before it in its file. Each lexeme has
a character at least, and one that is called blank holds blanks only. -/
inductive Lexeme.Cuts : (front text : List Char) → List Lexeme → Prop where
  | done (front : List Char) : Cuts front [] []
  | piece {front : List Char} (kind : Lexeme.Kind) (c : Char) (cs : List Char) {rest : List Char}
      {ls : List Lexeme} (blank : kind = .blank → ∀ d ∈ c :: cs, isBlank d = true)
      (after : Cuts (front ++ c :: cs) rest ls) :
      Cuts front (c :: cs ++ rest)
        (⟨kind, String.ofList (c :: cs), width front, Cutter.newlines front + 1⟩ :: ls)

namespace Cutter

theorem newlines_append (as bs : List Char) : newlines (as ++ bs) = newlines as + newlines bs :=
  List.count_append

/-! ## Blanks -/

theorem isBlank_of_isAsciiBlank {c : Char} (h : isAsciiBlank c = true) : isBlank c = true := by
  rw [isBlank, h]; rfl

/-- A text begins with the characters that are taken from it while they meet a test. -/
theorem take_length_takeWhile (p : Char → Bool) (cs : List Char) :
    cs.take (cs.takeWhile p).length = cs.takeWhile p :=
  (List.prefix_iff_eq_take.1 (List.takeWhile_prefix p)).symm

theorem isBlank_of_mem_takeWhile {p : Char → Bool} (hp : ∀ d, p d = true → isBlank d = true)
    {c : Char} (hc : p c = true) {cs : List Char} :
    ∀ d ∈ c :: cs.take (cs.takeWhile p).length, isBlank d = true := by
  intro d hd
  rw [take_length_takeWhile] at hd
  rcases List.mem_cons.1 hd with rfl | hd
  · exact hp d hc
  · exact hp d (List.mem_takeWhile_imp hd)

/-- What begins the text `c :: cs` is not called blank, or it holds blanks only. -/
def Piece.Honest (piece : Piece) (c : Char) (cs : List Char) : Prop :=
  piece.kind = .blank → ∀ d ∈ c :: cs.take piece.extra, isBlank d = true

theorem Piece.honest_of_ne {piece : Piece} (h : piece.kind ≠ .blank) (c : Char) (cs : List Char) :
    piece.Honest c cs :=
  fun hblank => absurd hblank h

variable (st : Cutter) (c : Char) (cs : List Char)

theorem nextMark_kind (cs : List Char) : (nextMark st cs).kind ≠ .blank :=
  nofun

theorem nextWord_kind (cs : List Char) : (nextWord st cs).kind ≠ .blank := by
  rw [nextWord]
  split <;> exact nofun

/-- Outside the tags blanks are those of ASCII. -/
theorem nextMarkup_honest : (nextMarkup st (c :: cs)).Honest c cs := by
  unfold nextMarkup
  split
  · exact Piece.honest_of_ne (by exact nofun) c cs
  · rename_i he
    obtain ⟨rfl, rfl⟩ := List.cons.inj he
    split
    · rename_i hc
      intro _
      rw [List.takeWhile_cons_of_pos hc]
      exact isBlank_of_mem_takeWhile (fun d => isBlank_of_isAsciiBlank) hc
    · exact Piece.honest_of_ne (by exact nofun) c cs
  · rename_i he; cases he

theorem nextCode_honest : (nextCode st (c :: cs)).Honest c cs := by
  have hmark := Piece.honest_of_ne (nextMark_kind st (c :: cs)) c cs
  have hword := Piece.honest_of_ne (nextWord_kind st (c :: cs)) c cs
  unfold nextCode
  dsimp only
  split
  case h_1 he => cases he
  case h_3 => exact hmark
  case h_10 =>
    split
    · exact Piece.honest_of_ne (by exact nofun) c cs
    · exact hmark
  case h_11 =>
    split
    · exact Piece.honest_of_ne (by exact nofun) c cs
    · exact hmark
  case h_12 =>
    split
    · exact Piece.honest_of_ne (by exact nofun) c cs
    · exact hmark
  case h_13 he =>
    obtain ⟨rfl, rfl⟩ := List.cons.inj he
    split
    · rename_i hc
      intro _
      exact isBlank_of_mem_takeWhile (fun d hd => hd) hc
    split
    · refine Piece.honest_of_ne ?_ c cs
      dsimp only
      split <;> exact nofun
    split
    · exact Piece.honest_of_ne (by exact nofun) c cs
    split
    · exact Piece.honest_of_ne (by exact nofun) c cs
    split
    · exact hword
    · exact hmark
  all_goals exact Piece.honest_of_ne (by exact nofun) c cs

/-- Between backticks nothing is a blank. -/
theorem nextShell_honest : (nextShell st (c :: cs)).Honest c cs := by
  unfold nextShell
  dsimp only
  split
  · rename_i he; cases he
  · exact Piece.honest_of_ne (by exact nofun) c cs
  · refine Piece.honest_of_ne ?_ c cs
    repeat' split
    all_goals exact nofun

/-- **Only blanks are called blank.** -/
theorem next_honest : (st.next (c :: cs)).Honest c cs := by
  unfold next
  split
  · exact nextMarkup_honest st c cs
  · exact nextShell_honest st c cs
  · exact nextCode_honest st c cs

/-! ## The lexemes of a text -/

/-- The cutter cuts the text up, when it is told where the text stands. -/
theorem cuts_run (front text : List Char) :
    Lexeme.Cuts front text (run st (width front) (newlines front + 1) text) := by
  induction hn : text.length using Nat.strong_induction_on generalizing st front text with
  | _ n ih =>
    cases text with
    | nil => rw [run]; exact .done front
    | cons c cs =>
      rw [run]
      have hrest := ih (cs.drop (st.next (c :: cs)).extra).length
        (by rw [← hn, List.length_drop, List.length_cons]; omega) (st.next (c :: cs)).next
        (front ++ c :: cs.take (st.next (c :: cs)).extra) _ rfl
      rw [width_append, newlines_append, Nat.add_right_comm] at hrest
      have hcut := Lexeme.Cuts.piece _ c _ (next_honest st c cs) hrest
      rwa [List.cons_append, List.take_append_drop] at hcut

end Cutter

/-- **The lexemes of a file are its content, cut up**, whatever it holds. -/
theorem cuts_lexemes (content : List Char) : Lexeme.Cuts [] content (lexemes content) := by
  unfold lexemes
  split
  · exact .done []
  · rename_i c cs
    split
    · rename_i hc
      subst hc
      have hblank : ∀ d ∈ [byteOrderMark], isBlank d = true := by
        intro d hd
        rw [List.mem_singleton.1 hd]
        decide
      exact .piece .blank byteOrderMark [] (fun _ => hblank)
        (Cutter.cuts_run Cutter.start [byteOrderMark] cs)
    · exact Cutter.cuts_run Cutter.start [] (c :: cs)

namespace Lexeme.Cuts

variable {front text : List Char} {ls : List Lexeme}

theorem stop_piece (front : List Char) (c : Char) (cs : List Char) (line : Nat) :
    Span.stop ⟨String.ofList (c :: cs), width front, line⟩ = width (front ++ c :: cs) := by
  rw [Span.stop, utf8ByteSize_ofList, width_append]

/-- **Lexemes stand where they say they do.** -/
theorem placed (h : Cuts front text ls) : ∀ l ∈ ls, l.span.Placed (front ++ text) := by
  induction h with
  | done front => exact nofun
  | @piece front kind c cs rest ls blank after ih =>
    rw [List.append_assoc, List.cons_append] at ih
    refine List.forall_mem_cons.2 ⟨⟨?_, ?_, ?_⟩, ih⟩
    · exact fun h => List.cons_ne_nil c cs (String.ofList_eq_empty_iff.1 h)
    · refine ⟨front, rest, ?_, rfl, ?_⟩
      · rw [span, String.toList_ofList, List.append_assoc]
      · rw [span, String.toList_ofList, stop_piece]
    · exact congrArg (Cutter.newlines · + 1) (upTo_append _ rfl).symm

theorem le_offset (h : Cuts front text ls) : ∀ l ∈ ls, width front ≤ l.offset := by
  induction h with
  | done front => exact nofun
  | @piece front kind c cs rest ls blank after ih =>
    rw [width_append] at ih
    refine List.forall_mem_cons.2 ⟨Nat.le_refl _, fun l hl => ?_⟩
    have := ih l hl
    omega

/-- **Each lexeme ends before the next one begins.** -/
theorem pairwise (h : Cuts front text ls) :
    ls.Pairwise fun l m => l.span.stop ≤ m.span.offset := by
  induction h with
  | done front => exact .nil
  | @piece front kind c cs rest ls blank after ih =>
    refine List.pairwise_cons.2 ⟨fun m hm => ?_, ih⟩
    have hstop := stop_piece front c cs (Cutter.newlines front + 1)
    exact hstop ▸ after.le_offset m hm

/-- **Whatever is no blank belongs to a lexeme** that is not called blank. -/
theorem covers (h : Cuts front text ls) {before after : List Char} {c : Char}
    (htext : text = before ++ c :: after) (hc : isBlank c = false) :
    ∃ l ∈ ls, l.kind ≠ .blank ∧ l.span.Has (width (front ++ before)) := by
  induction h generalizing before with
  | done front => simp at htext
  | @piece front kind d ds rest ls blank hafter ih =>
    have hbehind : ∀ more, before = d :: ds ++ more → rest = more ++ c :: after →
        ∃ l ∈ ls, l.kind ≠ .blank ∧ l.span.Has (width (front ++ before)) := by
      intro more hbefore hrest
      have hlater := ih hrest
      rwa [List.append_assoc, ← hbefore] at hlater
    rcases List.append_eq_append_iff.1 htext with ⟨more, hbefore, hrest⟩ | ⟨more, hpiece, hmore⟩
    · obtain ⟨l, hl, hl'⟩ := hbehind more hbefore hrest
      exact ⟨l, List.mem_cons_of_mem _ hl, hl'⟩
    cases more with
    | nil =>
      rw [List.append_nil] at hpiece
      obtain ⟨l, hl, hl'⟩ := hbehind [] (by rw [hpiece, List.append_nil]) hmore.symm
      exact ⟨l, List.mem_cons_of_mem _ hl, hl'⟩
    | cons e more =>
      -- the character is one of this lexeme, which therefore is not called blank
      obtain ⟨rfl, -⟩ := List.cons.inj hmore
      refine ⟨_, List.mem_cons_self, fun hkind => ?_, ?_, ?_⟩
      · have := blank hkind c (hpiece ▸ List.mem_append_right before List.mem_cons_self)
        rw [hc] at this
        cases this
      · show width front ≤ _
        rw [width_append]
        omega
      · show _ < Span.stop ⟨String.ofList (d :: ds), width front, _⟩
        have := width_pos c more
        rw [stop_piece, hpiece, width_append, width_append, width_append]
        omega

end Lexeme.Cuts

end PhpRename.Php
