import PhpRename.Doc.Tag
import PhpRename.Proofs.Text.Occurrence

/-!
# Where annotations write types

* `standsAt_of_mem_typeLists`: a list of types stands where it is said to.
* `typeLists_apart`: the lists of types of one text share no bytes.
-/

namespace PhpRename.Doc

open Text

variable {cs rest types : List Char} {i : Nat}

/-- The text ends in a blank. -/
def EndsBlank (front : List Char) : Prop :=
  ∃ lead blank, front = lead ++ [blank] ∧ Unicode.isSpace blank = true

theorem exists_append_of_afterBlanks? (h : afterBlanks? cs = some rest) :
    ∃ front, cs = front ++ rest ∧ EndsBlank front := by
  unfold afterBlanks? at h
  split at h
  · rename_i hhead
    cases h
    refine ⟨cs.takeWhile Unicode.isSpace, (List.takeWhile_append_dropWhile ..).symm, ?_⟩
    have hne : cs.takeWhile Unicode.isSpace ≠ [] := by
      cases cs with
      | nil => cases hhead
      | cons c cs =>
        rw [List.takeWhile_cons_of_pos (by simpa using hhead)]
        exact List.cons_ne_nil c _
    refine ⟨_, _, (List.dropLast_concat_getLast hne).symm, ?_⟩
    exact List.all_eq_true.1 List.all_takeWhile _ (List.getLast_mem hne)
  · cases h

theorem exists_append_of_tagged? {tags : List String} {tag : String}
    (h : tagged? tags cs = some (tag, rest)) : ∃ front, cs = front ++ rest ∧ EndsBlank front := by
  unfold tagged? at h
  split at h
  · rename_i more
    obtain ⟨t, -, h⟩ := List.exists_of_findSome?_eq_some h
    simp only [Option.bind_eq_bind, Option.bind_eq_some_iff] at h
    obtain ⟨more', hstrip, content, hafter, h⟩ := h
    cases h
    obtain ⟨front, rfl, lead, blank, rfl, hblank⟩ := exists_append_of_afterBlanks? hafter
    rw [stripStart?_eq_some_iff.1 hstrip]
    exact ⟨'@' :: (tag.toList ++ (lead ++ [blank])), by simp,
      '@' :: (tag.toList ++ lead), blank, by simp, hblank⟩
  · cases h

/-- The list of types that is found begins so many bytes after the annotation, behind a blank, and
goes on as far as it can. -/
theorem exists_append_of_typeList? {before : List Char} {lead k : Nat}
    (h : typeList? before cs = some ((lead, types), k)) :
    ∃ front rest, cs = front ++ types ++ rest ∧ width front = lead ∧
      k = front.length + types.length ∧ EndsBlank front ∧
      (∀ c ∈ types, isTypeChar c = true) ∧ rest.head?.any isTypeChar = false := by
  unfold typeList? at h
  simp only [Option.bind_eq_bind, Option.bind_eq_some_iff] at h
  obtain ⟨⟨tag, rest⟩, htag, h⟩ := h
  dsimp only at h
  split at h
  · cases h
  cases h
  obtain ⟨front, rfl, hblank⟩ := exists_append_of_tagged? htag
  have hlead : (front ++ rest).length - rest.length = front.length := by simp
  refine ⟨front, rest.dropWhile isTypeChar, ?_, ?_, ?_, hblank, ?_, ?_⟩
  · rw [List.append_assoc, List.takeWhile_append_dropWhile]
  · rw [hlead, List.take_left]
  · rw [hlead]
  · exact List.all_eq_true.1 List.all_takeWhile
  · cases hdrop : rest.dropWhile isTypeChar with
    | nil => rfl
    | cons c more => simpa [hdrop] using List.head?_dropWhile_not isTypeChar rest

/-- **A list of types stands where it is said to.** -/
theorem standsAt_of_mem_typeLists (h : (i, types) ∈ typeLists cs) :
    StandsAt cs types i (i + width types) := by
  obtain ⟨⟨start, lead, types'⟩, hscan, he⟩ := List.mem_map.1 h
  cases he
  obtain ⟨pre, post, k, rfl, rfl, hf⟩ := mem_scan_nil hscan
  obtain ⟨front, rest, rfl, rfl, -⟩ := exists_append_of_typeList? hf
  have := standsAt_append (pre ++ front) types rest
  simp only [List.append_assoc, width_append] at this ⊢
  exact this

theorem pairwise_typeLists (cs : List Char) :
    (typeLists cs).Pairwise fun p q => p.1 + width p.2 ≤ q.1 := by
  rw [typeLists, List.pairwise_map]
  have hext : ∀ before cs (a : Nat × List Char) k, typeList? before cs = some (a, k) →
      a.1 + width a.2 ≤ width (cs.take k) := by
    rintro before cs ⟨lead, types⟩ k h
    obtain ⟨front, rest, rfl, rfl, rfl, -⟩ := exists_append_of_typeList? h
    have hw : width front + width types =
        width ((front ++ types ++ rest).take (front.length + types.length)) := by
      rw [← List.length_append, List.take_left, width_append]
    exact Nat.le_of_eq hw
  refine (scan_pairwise hext [] cs 0).imp ?_
  rintro ⟨start, lead, types⟩ ⟨start', lead', types'⟩ ⟨-, h⟩
  dsimp only at h ⊢
  omega

/-- **Two lists of types of one text are one**, or share no bytes. -/
theorem typeLists_apart {p q : Nat × List Char} (hp : p ∈ typeLists cs) (hq : q ∈ typeLists cs) :
    p = q ∨ p.1 + width p.2 ≤ q.1 ∨ q.1 + width q.2 ≤ p.1 :=
  eq_or_apart_of_pairwise (pairwise_typeLists cs) hp hq

end PhpRename.Doc
