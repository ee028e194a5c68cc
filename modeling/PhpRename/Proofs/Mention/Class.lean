import PhpRename.Proofs.Mention.Place

/-!
# The mentions of a class

The places where a word is found share no bytes. So when the word is the name of a class, and a new
name is to be written there, all of them are mentions: no place keeps another one from being claimed.

* `wordPlaces_pairwise`: a place ends where the next one begins, or before.
* `find_ofClass`: the mentions of a class are the places of its name.
-/

namespace PhpRename.Mention

open Text

variable {word text : List Char} {old new : String} {place : Place} {places claimed : List Place}

/-- **The places of a word** come in order and share no bytes. -/
theorem wordPlaces_pairwise (word text : List Char) :
    (wordPlaces word text).Pairwise fun i j => i < j ∧ i + width word ≤ j := by
  have hplaces : wordPlaces word text = (scan (findWord word) [] 0 text).map Prod.fst := rfl
  have hext : ∀ before cs (a : Unit) k, findWord word before cs = some (a, k) →
      width word ≤ width (cs.take k) := by
    rintro before cs ⟨⟩ k h
    obtain ⟨rfl, rest, rfl⟩ := findWord_eq_some h
    exact Nat.le_of_eq (by rw [List.take_left])
  rw [hplaces, List.pairwise_map]
  exact scan_pairwise hext [] text 0

/-- Two places of a word are one, or share no bytes. -/
theorem wordPlaces_apart {i j : Nat} (hi : i ∈ wordPlaces word text)
    (hj : j ∈ wordPlaces word text) : i = j ∨ i + width word ≤ j ∨ j + width word ≤ i :=
  eq_or_apart_of_pairwise ((wordPlaces_pairwise word text).imp And.right) hi hj

/-- Places that share no bytes, and at which something changes, are all claimed. -/
theorem foldl_claim_of_apart (h : (claimed ++ places).Pairwise fun p q => q.meets p = false)
    (hidle : ∀ p ∈ places, p.isIdle text = false) :
    places.foldl (claim text) claimed = claimed ++ places := by
  induction places generalizing claimed with
  | nil => exact (List.append_nil claimed).symm
  | cons p places ih =>
    obtain ⟨hp, hrest⟩ := List.forall_mem_cons.1 hidle
    rw [← List.concat_append] at h ⊢
    have hfree : claimed.any p.meets = false := by
      rw [List.any_eq_false]
      intro q hq
      rw [List.concat_append, List.pairwise_append] at h
      rw [h.2.2 q hq p List.mem_cons_self, Bool.not_eq_true]
    have hclaim : claim text claimed p = claimed.concat p := by
      rw [claim, hfree, hp, List.concat_eq_append]; rfl
    rw [List.foldl_cons, hclaim]
    exact ih h hrest

/-- The place of a word, with what is to be written there. -/
def wordPlace (old new : String) (i : Nat) : Place :=
  ⟨i, i + old.utf8ByteSize, new⟩

theorem candidates_word (old new : String) (text : List Char) :
    (Rule.word old new []).candidates text =
      (wordPlaces old.toList text).map (wordPlace old new) := by
  have hfree : (wordPlaces old.toList text).filter (fun start =>
      !([] : List String).any fun g => endsWith (upTo text start).reverse g.toList) =
      wordPlaces old.toList text := List.filter_eq_self.2 fun _ _ => rfl
  rw [Rule.candidates]
  exact congrArg (List.map _) hfree

/-- A mention of a class is a place of its name. -/
theorem exists_wordPlaces_of_mem_find (h : place ∈ find (ofClass old new) text) :
    ∃ i ∈ wordPlaces old.toList text, place = ⟨i, i + old.utf8ByteSize, new⟩ := by
  obtain ⟨rule, hrule, hplace⟩ := exists_rule_of_mem_find h
  obtain rfl := List.mem_singleton.1 hrule
  rw [candidates_word] at hplace
  obtain ⟨i, hi, rfl⟩ := List.mem_map.1 hplace
  exact ⟨i, hi, rfl⟩

/-- **The mentions of a class are the places of its name**, if the class gets another one: the rule
claims all that it finds. -/
theorem find_ofClass (hne : old ≠ new) (text : List Char) : find (ofClass old new) text =
    (wordPlaces old.toList text).map (wordPlace old new) := by
  have hpairs := wordPlaces_pairwise old.toList text
  rw [← utf8ByteSize_eq_width] at hpairs
  have hapart : ([] ++ (Rule.word old new []).candidates text).Pairwise
      fun p q : Place => q.meets p = false := by
    rw [List.nil_append, candidates_word, List.pairwise_map]
    refine hpairs.imp fun {i j} hij => ?_
    rw [Place.meets, Bool.and_eq_false_iff, decide_eq_false_iff_not, decide_eq_false_iff_not]
    simp only [wordPlace]
    omega
  have hidle : ∀ p ∈ (Rule.word old new []).candidates text, p.isIdle text = false := by
    rw [candidates_word, List.forall_mem_map]
    intro j hj
    have hslice := (standsAt_of_mem_wordPlaces hj).slice_eq
    rw [← utf8ByteSize_eq_width] at hslice
    simp only [wordPlace, Place.isIdle, hslice, decide_eq_false_iff_not]
    exact fun he => hne (String.toList_injective he)
  have hclaims : claims (ofClass old new) text = (Rule.word old new []).candidates text :=
    foldl_claim_of_apart hapart hidle
  rw [find, hclaims, candidates_word]
  refine List.mergeSort_of_pairwise ?_
  rw [List.pairwise_map]
  exact hpairs.imp fun hij => decide_eq_true (Nat.le_of_lt hij.1)

theorem mem_find_ofClass (hne : old ≠ new) : place ∈ find (ofClass old new) text ↔
    ∃ i ∈ wordPlaces old.toList text, place = ⟨i, i + old.utf8ByteSize, new⟩ := by
  rw [find_ofClass hne, List.mem_map]
  exact exists_congr fun i => and_congr_right fun _ => eq_comm

end PhpRename.Mention
