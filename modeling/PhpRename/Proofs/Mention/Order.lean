import PhpRename.Proofs.Mention.Class
import PhpRename.Proofs.Pattern.Search

/-!
# What one rule finds comes in order

* `memberPlaces_pairwise`: the places of a member come in order.
* `Pattern.findAll_pairwise`: so do the matches of a pattern, empty ones included.
* `Rule.candidates_pairwise`: each place that a rule finds begins behind the one before it, and not
  before that one's end.
-/

namespace PhpRename.Pattern

open Text

variable {p : Pattern} {text : List Char} {m : Found}

theorem matchOf_start (p : Pattern) (text : List Char) (m : Found) :
    (p.matchOf text.toArray m).start = width (text.take m.start) := by
  simp [matchOf]

theorem matchOf_stop (h : m.start ≤ m.stop) :
    (p.matchOf text.toArray m).stop = width (text.take m.stop) := by
  rw [← Nat.add_sub_cancel' h, width_take_add]
  simp [matchOf]

/-- **The matches of a pattern** come in order and share no bytes. -/
theorem findAll_pairwise (p : Pattern) (text : List Char) :
    (p.findAll text).Pairwise fun m m' => m.start < m'.start ∧ m.stop ≤ m'.start := by
  unfold findAll
  rw [List.pairwise_map]
  refine (Search.findFrom_pairwise _ _ _ _ _ _).imp_of_mem fun {m m'} hm hm' h => ?_
  obtain ⟨hle, -⟩ := Search.bounds_of_mem_findAll hm
  obtain ⟨hle', hsize⟩ := Search.bounds_of_mem_findAll hm'
  rw [List.size_toArray] at hsize
  rw [matchOf_start, matchOf_start, matchOf_stop hle]
  refine ⟨width_take_lt h.1 (Nat.le_trans hle' hsize), ?_⟩
  rcases Nat.lt_or_eq_of_le h.2 with hlt | heq
  · exact Nat.le_of_lt (width_take_lt hlt (Nat.le_trans hle' hsize))
  · exact Nat.le_of_eq (by rw [heq])

end PhpRename.Pattern

namespace PhpRename.Mention

open Text

variable {cls member mark before after : List Char} {lead k : Nat}

theorem width_of_mem_memberMarks (h : mark ∈ memberMarks) : width mark = 2 := by
  have hall : ∀ mark ∈ memberMarks, width mark = 2 := by decide
  exact hall mark h

theorem exists_mark_of_memberAt? (h : memberAt? cls member before after = some (lead, k)) :
    ∃ mark ∈ memberMarks, lead = width (cls ++ mark) ∧ k = (cls ++ mark ++ member).length ∧
      wordAt (cls ++ mark ++ member) before after = true := by
  obtain ⟨mark, hmark, hf⟩ := List.exists_of_findSome?_eq_some h
  dsimp only at hf
  split at hf
  · rename_i hat
    cases hf
    exact ⟨mark, hmark, rfl, rfl, hat⟩
  · cases hf

/-- **The places of a member** come in order and share no bytes. -/
theorem memberPlaces_pairwise (cls member text : List Char) :
    (memberPlaces cls member text).Pairwise fun i j => i < j ∧ i + width member ≤ j := by
  have hext : ∀ before cs lead k, memberAt? cls member before cs = some (lead, k) →
      lead + width member ≤ width (cs.take k) := by
    intro before cs lead k h
    obtain ⟨mark, -, rfl, rfl, hat⟩ := exists_mark_of_memberAt? h
    obtain ⟨rest, rfl, -⟩ := wordAt_iff.1 hat
    exact Nat.le_of_eq (by rw [List.take_left, width_append (cls ++ mark)])
  rw [memberPlaces, List.pairwise_map]
  refine (scan_pairwise hext [] text 0).imp_of_mem fun {p q} _ hq hpq => ?_
  -- a member begins behind where its pair does
  obtain ⟨pre, post, k, -, -, hf⟩ := mem_scan_nil (i := q.1) (a := q.2) hq
  obtain ⟨mark, hmark, hlead, -⟩ := exists_mark_of_memberAt? hf
  have hpos := width_of_mem_memberMarks hmark
  rw [width_append] at hlead
  dsimp only
  omega

/-- **What one rule finds** comes in order and shares no bytes. -/
theorem Rule.candidates_pairwise (rule : Rule) (text : List Char) :
    (rule.candidates text).Pairwise fun p q => p.start < q.start ∧ p.stop ≤ q.start := by
  cases rule with
  | qualified cls member replacement =>
    rw [Rule.candidates, List.pairwise_map]
    simp only [utf8ByteSize_eq_width]
    exact memberPlaces_pairwise _ _ _
  | word w replacement guards =>
    rw [Rule.candidates, List.pairwise_map]
    simp only [utf8ByteSize_eq_width]
    exact (wordPlaces_pairwise _ _).filter _
  | pattern p template =>
    rw [Rule.candidates, List.pairwise_map]
    exact Pattern.findAll_pairwise p text

end PhpRename.Mention
