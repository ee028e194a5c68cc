import PhpRename.Unicode.Word

/-!
# Blanks are no word characters

The blanks beyond ASCII are few ranges of code points, and the table of word characters steps over
each of them.

* `isWord_of_isSpace`: no blank is a word character.
-/

namespace PhpRename.Unicode

/-- The blanks beyond ASCII. -/
def blankRanges : Ranges :=
  [(0x85, 0x85), (0xA0, 0xA0), (0x1680, 0x1680), (0x2000, 0x200A), (0x2028, 0x2029),
    (0x202F, 0x202F), (0x205F, 0x205F), (0x3000, 0x3000)]

namespace Ranges

variable {r : Ranges} {n : Nat}

theorem exists_mem_of_has (h : r.has n = true) : ∃ p ∈ r, p.1 ≤ n ∧ n ≤ p.2 := by
  induction r with
  | nil => cases h
  | cons p r ih =>
    rw [has] at h
    split at h
    · rename_i hhigh
      exact ⟨p, List.mem_cons_self, of_decide_eq_true h, hhigh⟩
    · obtain ⟨q, hq, hle⟩ := ih h
      exact ⟨q, List.mem_cons_of_mem p hq, hle⟩

/-- The range has no code point in common with those ranges. -/
def misses (r : Ranges) (p : Nat × Nat) : Bool :=
  r.all fun q => p.2 < q.1 || q.2 < p.1

theorem has_eq_false_of_misses {s : Ranges} (h : s.all r.misses = true)
    (hn : ∃ q ∈ r, q.1 ≤ n ∧ n ≤ q.2) : s.has n = false := by
  rw [Bool.eq_false_iff]
  intro hs
  obtain ⟨p, hp, hlow, hhigh⟩ := exists_mem_of_has hs
  obtain ⟨q, hq, hlow', hhigh'⟩ := hn
  have hpq := List.all_eq_true.1 (List.all_eq_true.1 h p hp) q hq
  rw [Bool.or_eq_true, decide_eq_true_eq, decide_eq_true_eq] at hpq
  omega

/-- A table is checked line by line. -/
theorem all_read_cons {f : Nat × Nat → Bool} {cs : List Char} {lines : List String}
    (h : ((pieces cs).map readOne).all f = true) (hlines : (read lines).all f = true) :
    (read (String.ofList cs :: lines)).all f = true := by
  rw [read, List.flatMap_cons, List.all_append, String.toList_ofList, h]
  exact hlines

end Ranges

theorem wordRanges_misses : wordRanges.all blankRanges.misses = true := by
  unfold wordRanges
  repeat refine Ranges.all_read_cons (by decide +kernel) ?_
  rfl

variable {c : Char}

theorem toNat_le_of_isAsciiSpace (h : isAsciiSpace c = true) : c.toNat ≤ 0x20 := by
  rw [isAsciiSpace, Bool.or_eq_true, Bool.and_eq_true, decide_eq_true_eq, decide_eq_true_eq,
    decide_eq_true_eq] at h
  rcases h with rfl | ⟨-, hle⟩
  · decide
  · have : c.toNat ≤ 13 := hle
    omega

theorem le_toNat_of_isAsciiWord (h : isAsciiWord c = true) : 0x30 ≤ c.toNat := by
  simp only [isAsciiWord, Bool.or_eq_true, Bool.and_eq_true, decide_eq_true_eq] at h
  rcases h with ((⟨hle, -⟩ | ⟨hle, -⟩) | ⟨hle, -⟩) | rfl
  · have : 97 ≤ c.toNat := hle
    omega
  · have : 65 ≤ c.toNat := hle
    omega
  · exact hle
  · decide

/-- A blank is one of ASCII, or lies in one of the ranges. -/
theorem isSpace_cases (h : isSpace c = true) :
    c.toNat ≤ 0x20 ∨ ∃ q ∈ blankRanges, q.1 ≤ c.toNat ∧ c.toNat ≤ q.2 := by
  cases hplain : isAsciiSpace c with
  | true => exact .inl (toNat_le_of_isAsciiSpace hplain)
  | false =>
    simp only [isSpace, hplain, Bool.or_eq_true, Bool.and_eq_true, decide_eq_true_eq,
      Bool.false_eq_true, false_or] at h
    simp only [blankRanges, List.mem_cons, List.not_mem_nil, or_false, exists_eq_or_imp,
      exists_eq_left]
    omega

/-- **No blank is a word character.** -/
theorem isWord_of_isSpace (h : isSpace c = true) : isWord c = false := by
  rw [isWord]
  split
  · rename_i hascii
    rw [Bool.eq_false_iff]
    intro hword
    have hle := le_toNat_of_isAsciiWord hword
    rcases isSpace_cases h with hspace | ⟨q, hq, hlow, -⟩
    · omega
    · -- the ranges begin beyond ASCII
      have hfar : ∀ q ∈ blankRanges, 0x80 ≤ q.1 := by decide
      have := hfar q hq
      omega
  · rename_i hascii
    have hrange := (isSpace_cases h).resolve_left (by omega)
    exact Ranges.has_eq_false_of_misses wordRanges_misses hrange

end PhpRename.Unicode
