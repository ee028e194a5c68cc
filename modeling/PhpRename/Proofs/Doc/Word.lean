import PhpRename.Proofs.Doc.Tag
import PhpRename.Proofs.Mention.Place
import PhpRename.Proofs.Unicode.Blank

/-!
# Words in lists of types

A word that a list of types names is looked for twice: in the list by itself, and in the text that
the list stands in. The list stands behind a blank and goes on as far as it can, so a word begins and
ends in it where it does in the text (`wordAt_types`), and no find in the text reaches into the list
from before it.

* `mem_wordPlaces_of_mem_typeLists`: what is found in the list is found in the text.
-/

namespace PhpRename.Doc

open Text Unicode Mention

variable {word types back rest text t u : List Char} {c : Char} {start place : Nat}

theorem isTypeChar_of_isWord (h : isWord c = true) : isTypeChar c = true := by
  rw [isTypeChar, h, Bool.true_or]

theorem isTypeChar_of_isSpace (h : isSpace c = true) : isTypeChar c = false := by
  have hmarks : "\\|?[]<>,()".toList.all (fun x => !isSpace x) = true := by decide
  rw [isTypeChar, isWord_of_isSpace h, Bool.false_or, Bool.eq_false_iff]
  intro hc
  have hspace := List.all_eq_true.1 hmarks c (List.contains_iff_mem.1 hc)
  rw [h] at hspace
  cases hspace

/-- What stands around a list of types has no word character next to it. -/
theorem any_isWord_of_not_isTypeChar (h : rest.head?.any isTypeChar = false) (u : List Char) :
    (u ++ rest).head?.any isWord = u.head?.any isWord := by
  cases u with
  | cons c u => rfl
  | nil =>
    cases rest with
    | nil => rfl
    | cons c rest =>
      rw [List.nil_append, List.head?_nil, List.head?_cons, Option.any_some, Option.any_none,
        Bool.eq_false_iff]
      intro hword
      rw [List.head?_cons, Option.any_some, isTypeChar_of_isWord hword] at h
      cases h

/-- **A word stands in a list of types where it stands in the text around the list.** -/
theorem wordAt_types (hne : word ≠ []) (hword : ∀ c ∈ word, isTypeChar c = true)
    (hback : back.head?.any isTypeChar = false) (hrest : rest.head?.any isTypeChar = false)
    (hu : u ≠ []) : wordAt word t.reverse u = wordAt word (t.reverse ++ back) (u ++ rest) := by
  have hfront : Mention.atEdge (t.reverse ++ back) (u ++ rest) = Mention.atEdge t.reverse u := by
    rw [Mention.atEdge, Mention.atEdge, Unicode.atEdge, Unicode.atEdge,
      any_isWord_of_not_isTypeChar hback, any_isWord_of_not_isTypeChar hrest]
  have hbehind : ∀ r, Mention.atEdge (word.reverse ++ (t.reverse ++ back)) (r ++ rest) =
      Mention.atEdge (word.reverse ++ t.reverse) r := by
    intro r
    rw [Mention.atEdge, Mention.atEdge, Unicode.atEdge, Unicode.atEdge, ← List.append_assoc,
      any_isWord_of_not_isTypeChar hback, any_isWord_of_not_isTypeChar hrest]
  rw [Bool.eq_iff_iff, wordAt_iff, wordAt_iff, hfront]
  constructor
  · rintro ⟨r, rfl, hedge, hedge'⟩
    exact ⟨r ++ rest, List.append_assoc .., hedge, by rw [hbehind]; exact hedge'⟩
  · rintro ⟨r', he, hedge, hedge'⟩
    rcases List.append_eq_append_iff.1 he with ⟨more, rfl, rfl⟩ | ⟨r, rfl, rfl⟩
    · -- the word would go on behind the list with a character that no list has in it
      cases more with
      | nil =>
        have hedge'' := hbehind []
        simp only [List.append_nil, List.nil_append] at hedge hedge' hedge'' ⊢
        exact ⟨[], (List.append_nil _).symm, hedge, by rw [← hedge'']; exact hedge'⟩
      | cons c more =>
        have := hword c (by simp)
        rw [List.cons_append, List.head?_cons, Option.any_some, this] at hrest
        cases hrest
    · exact ⟨r, rfl, hedge, by rw [← hbehind]; exact hedge'⟩

/-- **What is found in a list of types is found in the text**, at the same place. -/
theorem mem_wordPlaces_of_mem_typeLists (hne : word ≠ []) (ht : (start, types) ∈ typeLists text)
    (hp : place ∈ wordPlaces word types) : start + place ∈ wordPlaces word text := by
  obtain ⟨⟨i, lead, types'⟩, hscan, he⟩ := List.mem_map.1 ht
  cases he
  obtain ⟨pre, post, k, rfl, rfl, hf⟩ := mem_scan_nil hscan
  obtain ⟨front, rest, rfl, rfl, -, ⟨lead, blank, rfl, hblank⟩, htypes, hrest⟩ :=
    exists_append_of_typeList? hf
  have hblank' := isTypeChar_of_isSpace hblank
  have hword : ∀ c ∈ word, isTypeChar c = true := by
    obtain ⟨before, after, rfl, -, -⟩ := standsAt_of_mem_wordPlaces hp
    exact fun c hc => htypes c (by simp [hc])
  -- the scan of the text comes to the list with nothing to skip
  have hcut : pre ++ (lead ++ [blank] ++ types ++ rest) =
      (pre ++ lead) ++ blank :: (types ++ rest) := by simp
  rw [mem_wordPlaces, hcut]
  refine mem_scan_behind ?_ hblank' (pre ++ lead) [] 0 (by simp) ?_
  · intro before cs a k hk
    obtain ⟨rfl, r, rfl⟩ := findWord_eq_some hk
    rw [List.take_left]
    exact ⟨List.length_pos_iff.2 hne, hword⟩
  -- and from there on it is the scan of the list
  have hagree : ∀ t u, types = t ++ u → u ≠ [] → findWord word t.reverse u =
      findWord word (t.reverse ++ blank :: ((pre ++ lead).reverse ++ [])) (u ++ rest) := by
    intro t u _ hu
    have hback : (blank :: ((pre ++ lead).reverse ++ [])).head?.any isTypeChar = false := by
      rw [List.head?_cons, Option.any_some, hblank']
    rw [findWord, findWord, wordAt_types hne hword hback hrest hu]
  have hend : findWord word types.reverse [] = none := by
    cases hk : findWord word types.reverse [] with
    | none => rfl
    | some hit =>
      obtain ⟨-, r, he⟩ := findWord_eq_some hk
      exact absurd (List.append_eq_nil_iff.1 he.symm).1 hne
  have hwiden := mem_scan_widen hagree hend [] 0 rfl (mem_wordPlaces.1 hp)
  have hwidth : place + width (blank :: ((pre ++ lead).reverse ++ [])) =
      width pre + width (lead ++ [blank]) + place := by
    simp only [List.append_nil, width_cons, width_reverse, width_append, width_nil]
    omega
  rwa [hwidth] at hwiden

end PhpRename.Doc
