import Mathlib.Data.List.Basic
import PhpRename.Text.Offset

/-!
# Cutting text at boundaries

A boundary of a text is where the text is a first part followed by a second one, and its offset
is the width of the first part. So a boundary determines both parts, and the operations on
offsets become operations on parts.

* `splitAt?_eq_some_iff`: a text is cut into its two parts exactly at a boundary.
* `slice_append`: the text between two boundaries is the part between them.
* `width_slice`: that part has as many bytes as lie between the two offsets.
-/

namespace PhpRename.Text

variable {cs : List Char} {m n : Nat}

theorem utf8ByteSize_ofList (cs : List Char) : (String.ofList cs).utf8ByteSize = width cs := by
  induction cs with
  | nil => rfl
  | cons c cs ih =>
    rw [show c :: cs = [c] ++ cs from rfl, String.ofList_append, String.utf8ByteSize_append, ih,
      ← String.singleton_eq_ofList, String.utf8ByteSize_singleton]
    rfl

theorem utf8ByteSize_eq_width (s : String) : s.utf8ByteSize = width s.toList := by
  rw [← utf8ByteSize_ofList, String.ofList_toList]

theorem width_pos (c : Char) (cs : List Char) : 0 < width (c :: cs) := by
  have := c.utf8Size_pos
  rw [width_cons]; omega

theorem width_eq_zero : width cs = 0 ↔ cs = [] := by
  cases cs with
  | nil => simp
  | cons c cs => have := width_pos c cs; simp only [reduceCtorEq, iff_false]; omega

theorem utf8ByteSize_pos {s : String} (h : s ≠ "") : 0 < s.utf8ByteSize := by
  rw [utf8ByteSize_eq_width, Nat.pos_iff_ne_zero, ne_eq, width_eq_zero]
  exact fun hnil => h (String.toList_eq_nil_iff.1 hnil)

theorem splitAt?_zero (cs : List Char) : splitAt? cs 0 = some ([], cs) := by
  cases cs <;> rfl

theorem splitAt?_append (as bs : List Char) : splitAt? (as ++ bs) (width as) = some (as, bs) := by
  induction as with
  | nil => exact splitAt?_zero bs
  | cons a as ih =>
    obtain ⟨k, hk⟩ : ∃ k, width (a :: as) = k + 1 :=
      ⟨width (a :: as) - 1, by have := width_pos a as; omega⟩
    have hw : k + 1 = a.utf8Size + width as := by rw [← hk, width_cons]
    rw [hk, List.cons_append, splitAt?, if_pos (by omega),
      show k + 1 - a.utf8Size = width as by omega, ih]
    rfl

/-- **A text is cut exactly at the ends of its first parts.** -/
theorem splitAt?_eq_some_iff {as bs : List Char} :
    splitAt? cs n = some (as, bs) ↔ cs = as ++ bs ∧ width as = n := by
  constructor
  · intro h
    induction cs generalizing n as with
    | nil =>
      cases n with
      | zero => simp only [splitAt?, Option.some.injEq, Prod.mk.injEq] at h; simp [← h.1, ← h.2]
      | succ n => simp [splitAt?] at h
    | cons c cs ih =>
      cases n with
      | zero => simp only [splitAt?, Option.some.injEq, Prod.mk.injEq] at h; simp [← h.1, ← h.2]
      | succ n =>
        rw [splitAt?] at h
        split at h
        · obtain ⟨⟨as', bs'⟩, hs, he⟩ := Option.map_eq_some_iff.1 h
          obtain ⟨rfl, rfl⟩ := Prod.mk.inj he
          obtain ⟨rfl, hw⟩ := ih hs
          exact ⟨rfl, by rw [width_cons]; omega⟩
        · cases h
  · rintro ⟨rfl, rfl⟩
    exact splitAt?_append as bs

theorem isBoundary_iff : isBoundary cs n = true ↔ ∃ as bs, cs = as ++ bs ∧ width as = n := by
  rw [isBoundary, Option.isSome_iff_exists]
  constructor
  · rintro ⟨⟨as, bs⟩, h⟩
    exact ⟨as, bs, splitAt?_eq_some_iff.1 h⟩
  · rintro ⟨as, bs, h⟩
    exact ⟨(as, bs), splitAt?_eq_some_iff.2 h⟩

theorem isBoundary_zero (cs : List Char) : isBoundary cs 0 = true :=
  isBoundary_iff.2 ⟨[], cs, rfl, rfl⟩

theorem isBoundary_width (cs : List Char) : isBoundary cs (width cs) = true :=
  isBoundary_iff.2 ⟨cs, [], (List.append_nil cs).symm, rfl⟩

theorem le_width_of_isBoundary (h : isBoundary cs n = true) : n ≤ width cs := by
  obtain ⟨as, bs, rfl, rfl⟩ := isBoundary_iff.1 h
  rw [width_append]; omega

/-- Of two boundaries the later one cuts what the earlier one leaves. -/
theorem exists_parts (hm : isBoundary cs m = true) (hn : isBoundary cs n = true) (hmn : m ≤ n) :
    ∃ as bs ds, cs = as ++ bs ++ ds ∧ width as = m ∧ width (as ++ bs) = n := by
  obtain ⟨as, rest, rfl, rfl⟩ := isBoundary_iff.1 hm
  obtain ⟨ps, ds, he, rfl⟩ := isBoundary_iff.1 hn
  rcases List.append_eq_append_iff.1 he with ⟨bs, rfl, rfl⟩ | ⟨bs, rfl, rfl⟩
  · exact ⟨as, bs, ds, (List.append_assoc ..).symm, rfl, rfl⟩
  · -- the part up to `m` is no wider than the one up to `n`, so the two are the same
    rw [width_append] at hmn
    obtain rfl : bs = [] := width_eq_zero.1 (by omega)
    exact ⟨ps, [], rest, by simp, by simp, by simp⟩

/-! ## Parts -/

theorem upTo_append {as : List Char} (bs : List Char) (h : width as = n) : upTo (as ++ bs) n = as := by
  rw [upTo, ← h, splitAt?_append]

theorem beyond_append {as : List Char} (bs : List Char) (h : width as = n) :
    beyond (as ++ bs) n = bs := by
  rw [beyond, ← h, splitAt?_append]

theorem upTo_width (cs : List Char) : upTo cs (width cs) = cs := by
  have h := upTo_append [] (rfl : width cs = width cs)
  rwa [List.append_nil] at h

theorem slice_zero (cs : List Char) (n : Nat) : slice cs 0 n = upTo cs n := by
  rw [slice, beyond, splitAt?_zero]

/-- **The text between two boundaries.** -/
theorem slice_append {as bs : List Char} (ds : List Char) (hm : width as = m)
    (hn : width (as ++ bs) = n) : slice (as ++ bs ++ ds) m n = bs := by
  rw [slice, upTo_append ds hn, beyond_append bs hm]

/-- **The width of the text between two boundaries.** -/
theorem width_slice (hm : isBoundary cs m = true) (hn : isBoundary cs n = true) (hmn : m ≤ n) :
    width (slice cs m n) = n - m := by
  obtain ⟨as, bs, ds, rfl, ha, hb⟩ := exists_parts hm hn hmn
  rw [slice_append ds ha hb]
  rw [width_append] at hb; omega

theorem upTo_append_slice (hm : isBoundary cs m = true) (hn : isBoundary cs n = true)
    (hmn : m ≤ n) : upTo cs m ++ slice cs m n = upTo cs n := by
  obtain ⟨as, bs, ds, rfl, ha, hb⟩ := exists_parts hm hn hmn
  rw [slice_append ds ha hb, upTo_append ds hb, List.append_assoc, upTo_append _ ha]

theorem width_upTo (h : isBoundary cs n = true) : width (upTo cs n) = n := by
  obtain ⟨as, bs, rfl, hw⟩ := isBoundary_iff.1 h
  rw [upTo_append bs hw, hw]

end PhpRename.Text
