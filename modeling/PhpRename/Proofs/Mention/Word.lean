import PhpRename.Proofs.Mention.Place

/-!
# Whole words in one text

A whole word has no word character on either side. So a whole word that begins inside another one
is that one.

* `WordIn`: a whole word stands at a byte offset of a text.
* `wordIn_apart`: two whole words of one text are the same word at one place, or share no bytes.
* `mem_wordPlaces_iff`: the places found for a word are exactly those of the whole word.
-/

namespace PhpRename.Mention

open Text Unicode

variable {word word' text before after : List Char} {i j : Nat}

/-- The text consists of word characters, and of one at least. -/
def IsWord (word : List Char) : Prop :=
  word ≠ [] ∧ ∀ c ∈ word, isWord c = true

instance : DecidablePred IsWord := fun word =>
  decidable_of_iff (word ≠ [] ∧ word.all isWord = true)
    (and_congr_right fun _ => List.all_eq_true)

/-- The whole word stands at byte `i` of the text. -/
def WordIn (word text : List Char) (i : Nat) : Prop :=
  ∃ before after, text = before ++ word ++ after ∧ width before = i ∧
    before.getLast?.any isWord = false ∧ after.head?.any isWord = false

theorem IsWord.ne {s : String} (h : IsWord s.toList) : s ≠ "" := by
  rintro rfl
  exact h.1 rfl

theorem IsWord.head?_any (h : IsWord word) (after : List Char) :
    (word ++ after).head?.any isWord = true := by
  obtain ⟨hne, hall⟩ := h
  cases word with
  | nil => exact absurd rfl hne
  | cons c word => exact hall c List.mem_cons_self

theorem IsWord.getLast?_any (h : IsWord word) (before : List Char) :
    (before ++ word).getLast?.any isWord = true := by
  obtain ⟨hne, hall⟩ := h
  rw [List.getLast?_append_of_ne_nil _ hne, List.getLast?_eq_some_getLast hne]
  exact hall _ (List.getLast_mem hne)

/-- Of two word characters side by side neither begins or ends a word. So a text that begins and
ends with word characters stands by itself where no word character is on either side. -/
theorem wordAt_iff_of_ends (hhead : ∀ after, (word ++ after).head?.any isWord = true)
    (hlast : ∀ before, (before ++ word).getLast?.any isWord = true) :
    wordAt word before.reverse after = true ↔ ∃ rest, after = word ++ rest ∧
      before.getLast?.any isWord = false ∧ rest.head?.any isWord = false := by
  rw [wordAt_iff]
  refine exists_congr fun rest => and_congr_right ?_
  rintro rfl
  rw [atEdge, atEdge, Unicode.atEdge, Unicode.atEdge, ← List.reverse_append, List.head?_reverse,
    List.head?_reverse, hhead, hlast]
  simp

theorem IsWord.wordAt_iff (hw : IsWord word) :
    wordAt word before.reverse after = true ↔ ∃ rest, after = word ++ rest ∧
      before.getLast?.any isWord = false ∧ rest.head?.any isWord = false :=
  wordAt_iff_of_ends hw.head?_any hw.getLast?_any

/-- The places found for a word are those of the whole word. -/
theorem wordIn_of_mem_wordPlaces (hw : IsWord word) (h : i ∈ wordPlaces word text) :
    WordIn word text i := by
  obtain ⟨⟨i, u⟩, hscan, rfl⟩ := List.mem_map.1 h
  obtain ⟨pre, post, k, rfl, rfl, hf⟩ := mem_scan_nil hscan
  split at hf
  swap
  · cases hf
  rename_i hat
  obtain ⟨after, rfl, hedges⟩ := hw.wordAt_iff.1 hat
  exact ⟨pre, after, (List.append_assoc ..).symm, rfl, hedges⟩

/-- A word that begins where another one does, or behind that. -/
theorem wordIn_apart_of_append (hw : IsWord word) (hw' : IsWord word') {between after' : List Char}
    (h : word ++ after = between ++ (word' ++ after'))
    (hfront : (before ++ between).getLast?.any isWord = false)
    (hafter : after.head?.any isWord = false) (hafter' : after'.head?.any isWord = false) :
    (between = [] ∧ word = word') ∨ width word ≤ width between := by
  rcases List.append_eq_append_iff.1 h with ⟨gap, rfl, rfl⟩ | ⟨part, rfl, hpart⟩
  · exact .inr (by rw [width_append]; omega)
  cases between with
  | cons c between =>
    -- the character before the second word is one of the first word
    have hb : IsWord (c :: between) :=
      ⟨List.cons_ne_nil c between, fun x hx => hw.2 x (List.mem_append_left _ hx)⟩
    rw [hb.getLast?_any] at hfront
    cases hfront
  | nil =>
    refine .inl ⟨rfl, ?_⟩
    rw [List.nil_append] at hw ⊢
    -- whichever word is longer has a character where the other one has ended
    rcases List.append_eq_append_iff.1 hpart with ⟨more, rfl, rfl⟩ | ⟨more, rfl, rfl⟩
    · cases more with
      | nil => rw [List.append_nil]
      | cons c more =>
        have := hw.2 c (by simp)
        rw [List.cons_append, List.head?_cons, Option.any_some, this] at hafter'
        cases hafter'
    · cases more with
      | nil => rw [List.append_nil]
      | cons c more =>
        have := hw'.2 c (by simp)
        rw [List.cons_append, List.head?_cons, Option.any_some, this] at hafter
        cases hafter

/-- **Two whole words of one text** are the same word at one place, or share no bytes. -/
theorem wordIn_apart (hw : IsWord word) (hw' : IsWord word') (h : WordIn word text i)
    (h' : WordIn word' text j) :
    (i = j ∧ word = word') ∨ i + width word ≤ j ∨ j + width word' ≤ i := by
  obtain ⟨pre, post, rfl, rfl, hpre, hpost⟩ := h
  obtain ⟨pre', post', he, rfl, hpre', hpost'⟩ := h'
  rw [List.append_assoc, List.append_assoc] at he
  rcases List.append_eq_append_iff.1 he with ⟨between, rfl, hb⟩ | ⟨between, rfl, hb⟩
  · rcases wordIn_apart_of_append hw hw' hb hpre' hpost hpost' with ⟨rfl, rfl⟩ | hle
    · exact .inl ⟨by rw [List.append_nil], rfl⟩
    · rw [width_append]; exact .inr (.inl (by omega))
  · rcases wordIn_apart_of_append hw' hw hb hpre hpost' hpost with ⟨rfl, rfl⟩ | hle
    · exact .inl ⟨by rw [List.append_nil], rfl⟩
    · rw [width_append]; exact .inr (.inr (by omega))

/-- **The places found for a word** are exactly those of the whole word. -/
theorem mem_wordPlaces_iff (hw : IsWord word) : i ∈ wordPlaces word text ↔ WordIn word text i := by
  refine ⟨wordIn_of_mem_wordPlaces hw, ?_⟩
  rintro ⟨pre, after, rfl, rfl, hedges⟩
  have hfind : findWord word pre.reverse (word ++ after) = some ((), word.length) :=
    if_pos (hw.wordAt_iff.2 ⟨after, rfl, hedges⟩)
  rw [mem_wordPlaces, List.append_assoc]
  refine mem_scan_nil_of_find hfind fun front rest b n hpre hne hf => ?_
  subst hpre
  obtain ⟨rfl, tail, htail⟩ := findWord_eq_some hf
  -- what is found ahead of the word is another whole word, which ends before this one begins
  have hahead : WordIn word (front ++ rest ++ word ++ after) (width front) := by
    rw [findWord, ite_eq_iff] at hf
    obtain ⟨tail, he, hedges⟩ := hw.wordAt_iff.1 (hf.resolve_right fun h => by simp at h).1
    exact ⟨front, tail, by simp only [List.append_assoc, he], rfl, hedges⟩
  have hrest := Nat.pos_of_ne_zero (mt width_eq_zero.1 hne)
  have hle : width word ≤ width rest := by
    rcases wordIn_apart hw hw hahead ⟨front ++ rest, after, rfl, rfl, hedges⟩ with h | h | h <;>
      rw [width_append] at h <;> omega
  obtain ⟨gap, rfl, -⟩ := exists_append_of_width_le htail.symm hle
  rw [List.length_append]; omega

end PhpRename.Mention
