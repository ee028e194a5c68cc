import Mathlib.Algebra.BigOperators.Group.List.Basic
import Mathlib.Algebra.Ring.Int.Defs
import PhpRename.Proofs.Edit.Clash
import PhpRename.Proofs.Text.Boundary

/-!
# Splicing is weaving

Edits are made from the last to the first. What comes of it is told from the first to the last:
untouched text, a replacement, untouched text, and so on (`weave`).

* `wrappedStop_of_fits`: edits that fit a content end where they end in 64 bits.
* `spliceDown_reverse`: for edits that follow one another, making them from the last to the first
  weaves them into the content.
* `spliceBuffer_eq_splice`: the same steps on one buffer, which is changed in place, replace valid
  ranges only and give the same result, for every list of edits.
* `splice_eq_weave`: edits that pass the check and fit the content are woven into it, in whatever
  order they are given, and change its width by the sum of their deltas.
-/

namespace PhpRename.Edit

open Text

variable {content : List Char} {e f : Edit} {edits sorted : List Edit} {start stop floor : Nat}

/-- The text from `start` to `stop` with the replacements of edits in place of their ranges. The
edits are given in the order of the text. -/
def weave (content : List Char) (start stop : Nat) : List Edit → List Char
  | [] => slice content start stop
  | e :: rest => slice content start e.offset ++ e.replacement.toList ++ weave content e.stop stop rest

theorem weave_concat (content : List Char) (start stop : Nat) (edits : List Edit) (e : Edit) :
    weave content start stop (edits ++ [e]) =
      weave content start e.offset edits ++ e.replacement.toList ++ slice content e.stop stop := by
  induction edits generalizing start with
  | nil => rfl
  | cons f edits ih => simp only [List.cons_append, weave, ih, List.append_assoc]

theorem fits_iff :
    e.fits content = true ↔ isBoundary content e.offset = true ∧ isBoundary content e.stop = true := by
  rw [fits, Bool.and_eq_true]

/-- An edit that fits its content ends at the same offset in 64 bits, which all contents have room in. -/
theorem wrappedStop_of_fits (h : e.fits content = true) (hsize : width content < offsetCount) :
    e.wrappedStop = e.stop :=
  wrappedStop_eq (Nat.lt_of_le_of_lt (le_width_of_isBoundary (fits_iff.1 h).2) hsize)

theorem offset_le_stop (e : Edit) : e.offset ≤ e.stop :=
  Nat.le_add_right _ _

/-! ## Edits that follow one another -/

/-- Each edit begins after the one before it, and not before that one's end. -/
def InOrder (edits : List Edit) : Prop :=
  edits.Pairwise fun e f => e.stop ≤ f.offset ∧ e.offset < f.offset

theorem inOrder_mergeSort (h : Apart edits) : InOrder (edits.mergeSort before) := by
  have hap : Apart (edits.mergeSort before) := h.perm (List.mergeSort_perm edits before).symm
  exact ((pairwise_mergeSort_before edits).and hap).imp fun ⟨hb, ho⟩ => stop_le_of_before hb ho

/-- Edits that do not compete and have one offset are the same edit. -/
theorem Apart.eq_of_offset_eq (h : Apart edits) (he : e ∈ edits) (hf : f ∈ edits)
    (heq : e.offset = f.offset) : e = f := by
  by_contra hne
  have hsymm : Std.Symm fun e f : Edit => e.overlaps f = false :=
    ⟨fun e f hef => by rw [overlaps_comm]; exact hef⟩
  have := h.forall he hf hne
  rw [← Bool.not_eq_true, overlaps_iff] at this
  exact this (.inl heq)

/-- The order from the last edit to the first is the other one, turned round. -/
theorem mergeSort_after (h : Apart edits) :
    edits.mergeSort (fun e f => before f e) = (edits.mergeSort before).reverse := by
  refine @List.Perm.eq_of_pairwise _ (fun e f => before f e = true) _ _ ?_
    (@List.pairwise_mergeSort _ (fun e f => before f e) (fun _ _ _ hef hfg => before_trans hfg hef)
      (fun e f => before_total f e) edits)
    (List.pairwise_reverse.2 (pairwise_mergeSort_before edits)) ?_
  · intro e f he hf hfe hef
    refine h.eq_of_offset_eq (List.mem_mergeSort.1 he)
      (List.mem_mergeSort.1 (List.mem_reverse.1 hf)) ?_
    rw [before_iff] at hfe hef
    omega
  · exact (List.mergeSort_perm _ _).trans
      ((List.mergeSort_perm _ _).symm.trans (List.reverse_perm _).symm)

/-- **Making edits from the last to the first weaves them.** The induction is on the edits from
the end: what is done so far stands in place of the content from `floor` on, and all edits that
are left end by then. -/
theorem spliceDown_reverse (hfit : ∀ e ∈ sorted, e.fits content = true) (ho : InOrder sorted)
    (hfloor : ∀ e ∈ sorted, e.stop ≤ floor) (done : List Char) :
    spliceDown content sorted.reverse floor done = .ok (weave content 0 floor sorted ++ done) := by
  induction sorted using List.reverseRecOn generalizing floor done with
  | nil => rw [List.reverse_nil, spliceDown, weave, slice_zero]
  | append_singleton edits e ih =>
    have hmem : e ∈ edits ++ [e] := by simp
    obtain ⟨hpre, -, hlast⟩ := List.pairwise_append.1 ho
    rw [List.reverse_concat, spliceDown, if_neg (by simp [hfit e hmem]),
      if_neg (Nat.not_lt.2 (hfloor e hmem)),
      ih (fun f hf => hfit f (by simp [hf])) hpre
        (fun f hf => (hlast f hf e (List.mem_singleton_self e)).1),
      weave_concat]
    simp only [List.append_assoc]

/-- **The length law.** -/
theorem width_weave (hfit : ∀ e ∈ sorted, e.fits content = true) (ho : InOrder sorted)
    (hstart : isBoundary content start = true) (hstop : isBoundary content stop = true)
    (hle : start ≤ stop) (hs : ∀ e ∈ sorted, start ≤ e.offset ∧ e.stop ≤ stop) :
    (width (weave content start stop sorted) : Int) =
      (stop - start : Nat) + (sorted.map delta).sum := by
  induction sorted generalizing start with
  | nil => rw [weave, width_slice hstart hstop hle, List.map_nil, List.sum_nil, Int.add_zero]
  | cons e rest ih =>
    obtain ⟨hoff, hend⟩ := fits_iff.1 (hfit e List.mem_cons_self)
    obtain ⟨hes, hee⟩ := hs e List.mem_cons_self
    obtain ⟨hnext, hrest⟩ := List.pairwise_cons.1 ho
    have htail := ih (fun f hf => hfit f (List.mem_cons_of_mem _ hf)) hrest hend hee
      (fun f hf => ⟨(hnext f hf).1, (hs f (List.mem_cons_of_mem _ hf)).2⟩)
    rw [weave, width_append, width_append, width_slice hstart hoff hes, List.map_cons, List.sum_cons,
      Int.natCast_add, Int.natCast_add, htail, delta, utf8ByteSize_eq_width]
    have hlen : e.stop = e.offset + e.length := rfl
    omega

/-! ## The steps on one buffer -/

/-- The buffer with other text in a range; `none` when the range is not one of whole characters
of the buffer. -/
def replaceRange? (buffer : List Char) (start stop : Nat) (new : List Char) : Option (List Char) :=
  if start ≤ stop ∧ isBoundary buffer start = true ∧ isBoundary buffer stop = true then
    some (upTo buffer start ++ new ++ beyond buffer stop)
  else none

/-- Makes edits in a buffer that holds the content at first, given from the last to the first.
`floor?` is the offset of the last edit that was made. The result is `none` if a range that is to
be replaced is not one of the buffer. -/
def spliceBuffer (content : List Char) :
    List Edit → (floor? : Option Nat) → (buffer : List Char) → Option (Except Fault (List Char))
  | [], _, buffer => some (.ok buffer)
  | e :: rest, floor?, buffer =>
    if !e.fits content then some (.error (.outside e.offset e.length))
    else if floor?.any (· < e.stop) then
      some (.error (.clash e.range (floor?.getD 0, floor?.getD 0)))
    else
      (replaceRange? buffer e.offset e.stop e.replacement.toList).bind
        (spliceBuffer content rest (some e.offset))

/-- A range that ends by `floor` is one of whole characters of any buffer that agrees with the
content up to there. -/
theorem replaceRange?_eq_some (hfit : e.fits content = true) (hfloor : isBoundary content floor = true)
    (hle : e.stop ≤ floor) (done new : List Char) :
    replaceRange? (upTo content floor ++ done) e.offset e.stop new =
      some (upTo content e.offset ++ (new ++ slice content e.stop floor ++ done)) := by
  obtain ⟨hoff, hend⟩ := fits_iff.1 hfit
  have hso := upTo_append_slice hoff hend (offset_le_stop e)
  have hsf := upTo_append_slice hend hfloor hle
  have hwo := width_upTo hoff
  have hws := width_upTo hend
  set rest := slice content e.stop floor ++ done
  have hbuffer : upTo content floor ++ done = upTo content e.stop ++ rest := by
    rw [← hsf, List.append_assoc]
  have hup : upTo (upTo content e.stop ++ rest) e.offset = upTo content e.offset := by
    rw [← hso, List.append_assoc]; exact upTo_append _ hwo
  have hstart : isBoundary (upTo content e.stop ++ rest) e.offset = true := by
    rw [← hso, List.append_assoc]; exact isBoundary_iff.2 ⟨_, _, rfl, hwo⟩
  have hstop : isBoundary (upTo content e.stop ++ rest) e.stop = true :=
    isBoundary_iff.2 ⟨_, _, rfl, hws⟩
  rw [hbuffer, replaceRange?, if_pos ⟨offset_le_stop e, hstart, hstop⟩, hup, beyond_append _ hws]
  simp only [List.append_assoc, rest]

/-- One step on the buffer does what one step of splicing does. The buffer holds the content up
to `floor`, and after it what is done. -/
theorem spliceBuffer_eq_spliceDown (hfloor : isBoundary content floor = true)
    (edits : List Edit) (floor? : Option Nat)
    (hf : floor? = some floor ∨ floor? = none ∧ floor = width content) (done : List Char) :
    spliceBuffer content edits floor? (upTo content floor ++ done) =
      some (spliceDown content edits floor done) := by
  induction edits generalizing floor floor? done with
  | nil => rfl
  | cons e rest ih =>
    rw [spliceBuffer, spliceDown]
    by_cases hfit : e.fits content = true
    swap
    · simp only [hfit, Bool.not_false, if_true]
    simp only [hfit, Bool.not_true, Bool.false_eq_true, if_false]
    by_cases hle : e.stop ≤ floor
    · have hany : ¬ (floor?.any (· < e.stop)) = true := by
        rcases hf with rfl | ⟨rfl, -⟩ <;> simp [hle]
      rw [if_neg hany, if_neg (Nat.not_lt.2 hle), replaceRange?_eq_some hfit hfloor hle]
      exact ih (fits_iff.1 hfit).1 _ (.inl rfl) _
    · -- the first edit cannot end beyond the content, so there has been one before
      have hend := le_width_of_isBoundary (fits_iff.1 hfit).2
      obtain rfl : floor? = some floor := hf.resolve_right (by omega)
      simp [Nat.lt_of_not_le hle]

/-- **Every range that is replaced in the buffer is valid**, and the buffer ends up as the spliced
content, for every list of edits. -/
theorem spliceBuffer_eq_splice (content : List Char) (edits : List Edit) :
    spliceBuffer content (edits.mergeSort fun e f => before f e) none content =
      some (splice content edits) := by
  have h := spliceBuffer_eq_spliceDown (isBoundary_width content)
    (edits.mergeSort fun e f => before f e) none (.inr ⟨rfl, rfl⟩) []
  rwa [upTo_width, List.append_nil] at h

theorem spliceDown_ne_outside (hfit : ∀ e ∈ edits, e.fits content = true) (floor : Nat)
    (done : List Char) (offset length : Nat) :
    spliceDown content edits floor done ≠ .error (.outside offset length) := by
  induction edits generalizing floor done with
  | nil => rw [spliceDown]; exact nofun
  | cons e rest ih =>
    rw [spliceDown, if_neg (by simp [hfit e List.mem_cons_self])]
    split
    · exact nofun
    · exact ih (fun f hf => hfit f (List.mem_cons_of_mem _ hf)) _ _

/-- Edits that fit the content are never found to lie outside of it. -/
theorem splice_ne_outside (hfit : ∀ e ∈ edits, e.fits content = true) (offset length : Nat) :
    splice content edits ≠ .error (.outside offset length) :=
  spliceDown_ne_outside (fun e he => hfit e (List.mem_mergeSort.1 he)) _ _ offset length

/-- Edits that follow one another are refused only for one that does not fit. The invariant is that
those that are left, if they fit, end by `floor`. -/
theorem spliceDown_reverse_eq_error (ho : InOrder sorted)
    (hfloor : ∀ e ∈ sorted, e.fits content = true → e.stop ≤ floor) {done : List Char} {fault : Fault}
    (h : spliceDown content sorted.reverse floor done = .error fault) :
    ∃ e ∈ sorted, e.fits content = false ∧ fault = .outside e.offset e.length := by
  induction sorted using List.reverseRecOn generalizing floor done with
  | nil => cases h
  | append_singleton edits e ih =>
    have hmem : e ∈ edits ++ [e] := by simp
    obtain ⟨hpre, -, hlast⟩ := List.pairwise_append.1 ho
    rw [List.reverse_concat, spliceDown] at h
    split at h
    · rename_i hfit
      cases h
      exact ⟨e, hmem, by simpa using hfit, rfl⟩
    rename_i hfit
    rw [if_neg (Nat.not_lt.2 (hfloor e hmem (by simpa using hfit)))] at h
    obtain ⟨f, hf, hffit, rfl⟩ :=
      ih hpre (fun f hf _ => (hlast f hf e (List.mem_singleton_self e)).1) h
    exact ⟨f, by simp [hf], hffit, rfl⟩

/-- **Edits that do not compete are refused only for one that does not fit** the content. -/
theorem splice_eq_error (h : Apart edits) {fault : Fault} (hfault : splice content edits = .error fault) :
    ∃ e ∈ edits, e.fits content = false ∧ fault = .outside e.offset e.length := by
  rw [splice, mergeSort_after h] at hfault
  obtain ⟨e, he, hfit, rfl⟩ := spliceDown_reverse_eq_error (inOrder_mergeSort h)
    (fun e _ hfit => le_width_of_isBoundary (fits_iff.1 hfit).2) hfault
  exact ⟨e, List.mem_mergeSort.1 he, hfit, rfl⟩

/-! ## Edits in any order -/

theorem splice_of_apart (h : Apart edits) (hfit : ∀ e ∈ edits, e.fits content = true) :
    splice content edits = .ok (weave content 0 (width content) (edits.mergeSort before)) := by
  have hfit' : ∀ e ∈ edits.mergeSort before, e.fits content = true :=
    fun e he => hfit e (List.mem_mergeSort.1 he)
  rw [splice, mergeSort_after h, spliceDown_reverse hfit' (inOrder_mergeSort h)
    (fun e he => le_width_of_isBoundary (fits_iff.1 (hfit' e he)).2), List.append_nil]

theorem splice_perm {edits' : List Edit} (h : Apart edits) (hp : edits'.Perm edits) :
    splice content edits' = splice content edits := by
  have h' : Apart edits' := h.perm hp.symm
  rw [splice, splice, mergeSort_after h', mergeSort_after h]
  congr 2
  refine @List.Perm.eq_of_pairwise _ (fun e f => before e f = true) _ _ ?_
    (pairwise_mergeSort_before _) (pairwise_mergeSort_before _)
    ((List.mergeSort_perm _ _).trans (hp.trans (List.mergeSort_perm _ _).symm))
  intro e f he hf hef hfe
  refine h'.eq_of_offset_eq (List.mem_mergeSort.1 he) (hp.mem_iff.2 (List.mem_mergeSort.1 hf)) ?_
  rw [before_iff] at hef hfe
  omega

/-- **Splicing weaves the edits into the content.** Edits that pass the check and fit the content
are made, and the result is the untouched text before each edit and its replacement, in ascending
order of offsets, and then the untouched tail. It is the same for every order in which the edits
are given, its width differs from that of the content by the sum of the deltas, and making the
edits in one buffer replaces valid ranges only. -/
theorem splice_eq_weave (hcheck : checkClashes edits = .ok ())
    (hfit : ∀ e ∈ edits, e.fits content = true) :
    ∃ sorted result, sorted.Perm edits ∧ sorted.Pairwise (fun e f => e.offset < f.offset) ∧
      result = weave content 0 (width content) sorted ∧
      (∀ edits' : List Edit, edits'.Perm edits → splice content edits' = .ok result) ∧
      (width result : Int) = width content + (edits.map delta).sum ∧
      spliceBuffer content (edits.mergeSort fun e f => before f e) none content =
        some (.ok result) := by
  have hap := checkClashes_eq_ok_iff.1 hcheck
  have hperm := List.mergeSort_perm edits before
  have ho := inOrder_mergeSort hap
  have hs := splice_of_apart hap hfit
  refine ⟨edits.mergeSort before, _, hperm, ho.imp And.right, rfl, ?_, ?_, ?_⟩
  · intro edits' hp
    rw [splice_perm hap hp, hs]
  · have hfit' : ∀ e ∈ edits.mergeSort before, e.fits content = true :=
      fun e he => hfit e (List.mem_mergeSort.1 he)
    rw [width_weave hfit' ho (isBoundary_zero content) (isBoundary_width content) (Nat.zero_le _)
      fun e he => ⟨Nat.zero_le _, le_width_of_isBoundary (fits_iff.1 (hfit' e he)).2⟩,
      (hperm.map delta).sum_eq, Nat.sub_zero]
  · rw [spliceBuffer_eq_splice, hs]

/-- Edits given out of order: one of no length directly behind another one, and one that ends
where a character of two bytes does. -/
theorem splice_eq_weave_touching :
    let content := "é: old".toList
    let edits : List Edit := [⟨⟨"f"⟩, 4, 3, "newer", .certain, 1⟩, ⟨⟨"f"⟩, 2, 0, "!", .certain, 1⟩,
      ⟨⟨"f"⟩, 0, 2, "", .ambiguous, 1⟩]
    checkClashes edits = .ok () ∧ (∀ e ∈ edits, e.fits content = true) ∧
      ∃ sorted result, sorted.Perm edits ∧ sorted.Pairwise (fun e f => e.offset < f.offset) ∧
        result = weave content 0 (width content) sorted ∧
        (∀ edits' : List Edit, edits'.Perm edits → splice content edits' = .ok result) ∧
        (width result : Int) = width content + (edits.map delta).sum ∧
        spliceBuffer content (edits.mergeSort fun e f => before f e) none content =
          some (.ok result) := by
  intro content edits
  have hcheck : checkClashes edits = .ok () := by
    rw [checkClashes_eq_ok_iff]; unfold Apart; decide
  have hfit : ∀ e ∈ edits, e.fits content = true := by decide
  exact ⟨hcheck, hfit, splice_eq_weave hcheck hfit⟩

end PhpRename.Edit
