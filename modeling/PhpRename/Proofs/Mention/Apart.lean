import PhpRename.Proofs.Edit.Clash
import PhpRename.Proofs.Mention.Order
import PhpRename.Rename.Mentions

/-!
# When mentions collide

Rules claim places that have no bytes in common. An empty place has no bytes, so it may be claimed at
the start of another one; but edits at one offset always compete. This is the only way in which two
mentions of a token become edits that compete: a rule alone finds no two places that begin alike.

* `claims_pairwise`: claimed places have no bytes in common, and those that begin alike come from two
  rules.
* `mentions_collide_iff`: two mentions collide exactly if they begin alike, and then one is empty.
* `mentions_collide_at_claim`: an empty match at the start of a word.
-/

namespace PhpRename.Mention

open Php Text

variable {rules : List Rule} {rule : Rule} {text : List Char} {place p q : Place}
variable {claimed places : List Place}

theorem meets_comm (p q : Place) : p.meets q = q.meets p :=
  Bool.and_comm ..

/-- What is claimed of some places: a part of them in their order, none of which meets what was
claimed before. -/
theorem exists_accepted (places claimed : List Place) (text : List Char) :
    ∃ accepted, accepted.Sublist places ∧
      places.foldl (claim text) claimed = claimed ++ accepted ∧
      ∀ q ∈ accepted, ∀ p ∈ claimed, p.meets q = false := by
  induction places generalizing claimed with
  | nil => exact ⟨[], .refl _, (List.append_nil claimed).symm, nofun⟩
  | cons place places ih =>
    rw [List.foldl_cons]
    by_cases hclaim : claimed.any place.meets = true ∨ place.isIdle text = true
    · rw [claim, if_pos (Bool.or_eq_true_iff.2 hclaim)]
      obtain ⟨accepted, hsub, hfold, hapart⟩ := ih claimed
      exact ⟨accepted, .cons _ hsub, hfold, hapart⟩
    · rw [claim, if_neg (mt Bool.or_eq_true_iff.1 hclaim)]
      obtain ⟨accepted, hsub, hfold, hapart⟩ := ih (claimed ++ [place])
      refine ⟨place :: accepted, .cons_cons _ hsub, by rw [hfold, List.append_assoc]; rfl, ?_⟩
      intro q hq p hp
      rcases List.mem_cons.1 hq with rfl | hq
      · have hfree := List.any_eq_false.1 (Bool.eq_false_iff.2 fun h => hclaim (.inl h)) p hp
        rw [meets_comm]
        exact Bool.eq_false_iff.2 hfree
      · exact hapart q hq p (List.mem_append_left _ hp)

/-- The rule at some position of the list finds the place. -/
def FoundAt (rules : List Rule) (text : List Char) (position : Nat) (place : Place) : Prop :=
  ∃ rule, rules[position]? = some rule ∧ place ∈ rule.candidates text

/-- The two places are found by rules at different positions of the list. -/
def FromTwoRules (rules : List Rule) (text : List Char) (p q : Place) : Prop :=
  ∃ m n, m ≠ n ∧ FoundAt rules text m p ∧ FoundAt rules text n q

theorem FromTwoRules.symm (h : FromTwoRules rules text p q) : FromTwoRules rules text q p := by
  obtain ⟨m, n, hne, hp, hq⟩ := h
  exact ⟨n, m, hne.symm, hq, hp⟩

theorem FoundAt.append {position : Nat} (h : FoundAt rules text position place) (rule : Rule) :
    FoundAt (rules ++ [rule]) text position place := by
  obtain ⟨rule', hrule, hplace⟩ := h
  have hlt := (List.getElem?_eq_some_iff.1 hrule).1
  exact ⟨rule', by rw [List.getElem?_append_left hlt, hrule], hplace⟩

theorem exists_foundAt (h : place ∈ claims rules text) :
    ∃ position < rules.length, FoundAt rules text position place := by
  obtain ⟨rule, hrule, hplace⟩ := (exists_rule_of_mem_foldl h).resolve_left List.not_mem_nil
  obtain ⟨position, hlt, rfl⟩ := List.mem_iff_getElem.1 hrule
  exact ⟨position, hlt, _, List.getElem?_eq_getElem hlt, hplace⟩

/-- **Claimed places** have no bytes in common, and those that begin alike come from two rules. The
induction is on the rules from the end: the last rule claims some of what it finds, in order. -/
theorem claims_pairwise (rules : List Rule) (text : List Char) :
    (claims rules text).Pairwise fun p q =>
      p.meets q = false ∧ (p.start = q.start → FromTwoRules rules text p q) := by
  induction rules using List.reverseRecOn with
  | nil => exact .nil
  | append_singleton rules rule ih =>
    -- the pairs are of two places claimed before, of two of the last rule, or of one of each
    obtain ⟨accepted, hsub, hfold, hapart⟩ :=
      exists_accepted (rule.candidates text) (claims rules text) text
    have hclaims : claims (rules ++ [rule]) text = claims rules text ++ accepted := by
      rw [← hfold, claims, List.foldl_append]
      rfl
    have hlast : ∀ q ∈ accepted, FoundAt (rules ++ [rule]) text rules.length q := fun q hq =>
      ⟨rule, List.getElem?_concat_length, hsub.subset hq⟩
    rw [hclaims]
    refine List.pairwise_append.2 ⟨?_, ?_, fun p hp q hq => ⟨hapart q hq p hp, fun _ => ?_⟩⟩
    · refine ih.imp fun h => ⟨h.1, fun he => ?_⟩
      obtain ⟨m, n, hne, hp, hq⟩ := h.2 he
      exact ⟨m, n, hne, hp.append rule, hq.append rule⟩
    · refine ((rule.candidates_pairwise text).sublist hsub).imp fun {p q} h => ⟨?_, ?_⟩
      · rw [Place.meets, Bool.and_eq_false_iff, decide_eq_false_iff_not, decide_eq_false_iff_not]
        omega
      · exact fun he => absurd he (Nat.ne_of_lt h.1)
    · obtain ⟨position, hlt, hfound⟩ := exists_foundAt hp
      exact ⟨position, rules.length, Nat.ne_of_lt hlt, hfound.append rule, hlast q hq⟩

/-- The edit that a mention in the token at the site becomes. -/
def editAt (s : Site) (p : Place) : Edit :=
  Rename.replaceWithin s p.start (p.stop - p.start) p.replacement .ambiguous

theorem mentionEdits_eq (rules : List Rule) (s : Site) :
    Rename.mentionEdits rules s = (find rules s.token.text.toList).map (editAt s) := rfl

theorem start_le_stop (h : place ∈ find rules text) : place.start ≤ place.stop := by
  obtain ⟨rule, -, hplace⟩ := exists_rule_of_mem_find h
  obtain ⟨matched, -, hstands⟩ := rule.exists_matched hplace
  rw [hstands.stop_eq]
  exact Nat.le_add_right _ _

theorem overlaps_editAt (s : Site) (hp : p.start ≤ p.stop) (hq : q.start ≤ q.stop)
    (h : p.meets q = false) : (editAt s p).overlaps (editAt s q) = true ↔ p.start = q.start := by
  rw [Place.meets, Bool.and_eq_false_iff, decide_eq_false_iff_not, decide_eq_false_iff_not] at h
  rw [Edit.overlaps_iff]
  simp only [editAt, Rename.replaceWithin, Edit.stop]
  omega

/-- **When mentions collide.** The mentions of a token come in text order. Two of them become edits
that compete exactly if they begin at the same byte; then one of them is empty, and they come from
two rules. So where all that the rules find has bytes, the mentions begin at different bytes, and
their edits do not compete. -/
theorem mentions_collide_iff (rules : List Rule) (s : Site) :
    ((find rules s.token.text.toList).Pairwise fun p q => p.start ≤ q.start ∧
      ((editAt s p).overlaps (editAt s q) = true ↔ p.start = q.start) ∧
      (p.start = q.start → (p.start = p.stop ∨ q.start = q.stop) ∧
        FromTwoRules rules s.token.text.toList p q)) ∧
    ((∀ rule ∈ rules, ∀ p ∈ rule.candidates s.token.text.toList, p.start ≠ p.stop) →
      (find rules s.token.text.toList).Pairwise (fun p q => p.start < q.start) ∧
        Edit.Apart (Rename.mentionEdits rules s)) := by
  set text := s.token.text.toList
  -- what holds of claimed places is symmetric, so it still holds when they are sorted
  have hclaims : (find rules text).Pairwise fun p q =>
      p.meets q = false ∧ (p.start = q.start → FromTwoRules rules text p q) := by
    refine (List.mergeSort_perm _ _).pairwise_iff ?_ |>.2 (claims_pairwise rules text)
    exact fun h => ⟨by rw [meets_comm]; exact h.1, fun he => (h.2 he.symm).symm⟩
  have hcollide : (find rules text).Pairwise fun p q => p.start ≤ q.start ∧
      ((editAt s p).overlaps (editAt s q) = true ↔ p.start = q.start) ∧
      (p.start = q.start → (p.start = p.stop ∨ q.start = q.stop) ∧ FromTwoRules rules text p q) := by
    refine ((find_sorted rules text).and hclaims).imp_of_mem fun {p q} hp hq h => ?_
    obtain ⟨hle, hmeets, htwo⟩ := h
    have hp := start_le_stop hp
    have hq := start_le_stop hq
    refine ⟨hle, overlaps_editAt s hp hq hmeets, fun he => ⟨?_, htwo he⟩⟩
    rw [Place.meets, Bool.and_eq_false_iff, decide_eq_false_iff_not, decide_eq_false_iff_not] at hmeets
    omega
  refine ⟨hcollide, fun hbytes => ?_⟩
  have hne : ∀ p ∈ find rules text, p.start ≠ p.stop := by
    intro p hp
    obtain ⟨rule, hrule, hplace⟩ := exists_rule_of_mem_find hp
    exact hbytes rule hrule p hplace
  have hstarts : (find rules text).Pairwise fun p q => p.start < q.start ∧
      (editAt s p).overlaps (editAt s q) = false := by
    refine hcollide.imp_of_mem fun {p q} hp hq h => ?_
    obtain ⟨hle, hoverlaps, hempty⟩ := h
    have hdiffer : p.start ≠ q.start := fun he => (hempty he).1.elim (hne p hp) (hne q hq)
    exact ⟨Nat.lt_of_le_of_ne hle hdiffer, Bool.eq_false_iff.2 (mt hoverlaps.1 hdiffer)⟩
  refine ⟨hstarts.imp And.left, ?_⟩
  rw [Edit.Apart, mentionEdits_eq, List.pairwise_map]
  exact hstarts.imp And.right

/-- The site of a comment behind the opening tag. -/
def remarkSite (remark : String) : Site :=
  let token : Token := ⟨.comment, "comment", remark, 6, 2, 0⟩
  ⟨⟨⟨"/p/t.php"⟩, "<?php\n" ++ remark, [token], [⟨none, none⟩], [0, 6]⟩, [], token, []⟩

/-- A word and a pattern, neither of which matches nothing. -/
theorem mentions_collide_iff_bytes :
    let rules := .word "a" "b" [] :: (Rule.ofPattern? "a+" "c" false false).toList
    (find rules "#a aa".toList).Pairwise (fun p q => p.start < q.start) ∧
      Edit.Apart (Rename.mentionEdits rules (remarkSite "#a aa")) := by
  intro rules
  refine (mentions_collide_iff rules (remarkSite "#a aa")).2 ?_
  have hfound : (rules.flatMap fun rule => rule.candidates "#a aa".toList) =
      [⟨1, 2, "b"⟩, ⟨1, 2, "c"⟩, ⟨3, 5, "c"⟩] := by decide +kernel
  have hbytes : ∀ p ∈ rules.flatMap fun rule => rule.candidates "#a aa".toList, p.start ≠ p.stop := by
    rw [hfound]; decide
  exact fun rule hrule p hp => hbytes p (List.mem_flatMap.2 ⟨rule, hrule, hp⟩)

/-- **An empty match at the start of a word** is claimed though the word is. -/
theorem mentions_collide_at_claim :
    let rules := .word "a" "b" [] :: (Rule.ofPattern? "" "-" false false).toList
    find rules "#a".toList = [⟨0, 0, "-"⟩, ⟨1, 2, "b"⟩, ⟨1, 1, "-"⟩, ⟨2, 2, "-"⟩] ∧
      ¬ (find rules "#a".toList).Pairwise (fun p q => p.start < q.start) ∧
      ¬ Edit.Apart (Rename.mentionEdits rules (remarkSite "#a")) := by
  intro rules
  have hclaims : claims rules "#a".toList = [⟨1, 2, "b"⟩, ⟨0, 0, "-"⟩, ⟨1, 1, "-"⟩, ⟨2, 2, "-"⟩] := by
    decide +kernel
  have hfind : find rules "#a".toList = [⟨0, 0, "-"⟩, ⟨1, 2, "b"⟩, ⟨1, 1, "-"⟩, ⟨2, 2, "-"⟩] := by
    rw [find, hclaims]
    simp [List.mergeSort]
  have hedits : Rename.mentionEdits rules (remarkSite "#a") =
      (find rules "#a".toList).map (editAt (remarkSite "#a")) := rfl
  rw [hedits, hfind]
  refine ⟨rfl, by decide, ?_⟩
  unfold Edit.Apart
  decide

end PhpRename.Mention
