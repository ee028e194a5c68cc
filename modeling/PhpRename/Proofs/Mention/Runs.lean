import Mathlib.Data.List.SplitBy
import PhpRename.Proofs.Mention.Word

/-!
# The runs of a text

A text falls into runs, which are as long as possible: runs of word characters, and runs of other
characters between them. The whole words of the text are its runs of word characters. When one word
gives way to another one, the runs around it stay what they are, so the runs of the new text are
known.

* `wordIn_iff_runs`: the whole words are the runs of word characters, where these begin.
* `runs_renamed`: the runs of a text in which one word has given way to another one.
* `renamed_renamed`: the way back.
-/

namespace PhpRename.Mention

open Text Unicode

variable {old new word text before after run as bs : List Char} {left right pieces : List (List Char)}
variable {i n : Nat}

/-- The longest pieces of the text that have word characters only, or none. -/
def runs (text : List Char) : List (List Char) :=
  text.splitBy fun a b => isWord a == isWord b

theorem flatten_runs (text : List Char) : (runs text).flatten = text :=
  List.flatten_splitBy _ text

theorem IsWord.isChain (hw : IsWord word) :
    word.IsChain fun a b => (isWord a == isWord b) = true := by
  refine (List.pairwise_of_forall_mem_list fun a ha b hb => ?_).isChain
  rw [hw.2 a ha, hw.2 b hb]
  rfl

/-- Runs do not go on from a word character to another character. -/
theorem runs_append (h : as.getLast?.any isWord ≠ bs.head?.any isWord) :
    runs (as ++ bs) = runs as ++ runs bs := by
  refine List.splitBy_append fun x hx y hy => ?_
  rw [Option.mem_def.1 hx, Option.mem_def.1 hy] at h
  exact beq_eq_false_iff_ne.2 h

/-- A whole word is a run by itself. -/
theorem runs_append_word (hw : IsWord word) (hfront : before.getLast?.any isWord = false)
    (hback : after.head?.any isWord = false) :
    runs (before ++ word ++ after) = runs before ++ word :: runs after := by
  have hword : runs word = [word] := List.splitBy_of_isChain hw.1 hw.isChain
  have hhead := hw.head?_any []
  rw [List.append_nil] at hhead
  rw [runs_append (by rw [hw.getLast?_any, hback]; decide),
    runs_append (by rw [hhead, hfront]; decide), hword, List.append_assoc, List.singleton_append]

/-- A run of word characters has no word character on either side. -/
theorem wordIn_of_runs (hw : IsWord word) (h : runs text = left ++ word :: right) :
    WordIn word text (width left.flatten) := by
  have htext : text = left.flatten ++ word ++ right.flatten := by
    rw [← flatten_runs text, h, List.flatten_append, List.flatten_cons, List.append_assoc]
  -- neighbouring runs differ in sort at the edge between them
  have hchain := List.isChain_getLast_head_splitBy (fun a b => isWord a == isWord b) text
  rw [← runs, h] at hchain
  obtain ⟨-, hright, hleft⟩ := List.isChain_append.1 hchain
  refine ⟨left.flatten, right.flatten, htext, rfl, ?_, ?_⟩
  · rcases List.eq_nil_or_concat left with rfl | ⟨front, run, rfl⟩
    · rfl
    obtain ⟨hrun, hne, hedge⟩ := hleft run (by simp) word (by simp)
    rw [hw.2 _ (List.head_mem hne)] at hedge
    rw [List.concat_eq_append, List.flatten_concat, List.getLast?_append_of_ne_nil _ hrun,
      List.getLast?_eq_some_getLast hrun]
    simpa using hedge
  · cases right with
    | nil => rfl
    | cons run rest =>
      obtain ⟨hne, hrun, hedge⟩ := (List.isChain_cons_cons.1 hright).1
      rw [hw.2 _ (List.getLast_mem hne)] at hedge
      rw [List.flatten_cons, List.head?_append_of_ne_nil _ hrun, List.head?_eq_some_head hrun]
      simpa using hedge

/-- **The whole words are the runs of word characters.** -/
theorem wordIn_iff_runs (hw : IsWord word) : WordIn word text i ↔
    ∃ left right, runs text = left ++ word :: right ∧ width left.flatten = i := by
  constructor
  · rintro ⟨before, after, rfl, rfl, hfront, hback⟩
    exact ⟨runs before, runs after, runs_append_word hw hfront hback, by rw [flatten_runs]⟩
  · rintro ⟨left, right, h, rfl⟩
    exact wordIn_of_runs hw h

/-! ## One word in place of another -/

/-- The new word for the old one; another run as it is. -/
def swap (old new run : List Char) : List Char :=
  if run = old then new else run

/-- The text with the new word wherever the old one is a run. -/
def renamed (old new text : List Char) : List Char :=
  ((runs text).map (swap old new)).flatten

theorem swap_swap (h : run ≠ new) : swap new old (swap old new run) = run := by
  unfold swap
  by_cases hrun : run = old
  · rw [if_pos hrun, if_pos rfl, hrun]
  · rw [if_neg hrun, if_neg h]

section Renamed

variable (hold : IsWord old) (hnew : IsWord new)
include hold hnew

/-- A run and what stands in its place begin and end alike. -/
theorem swap_ends (hne : run ≠ []) : ∃ h : swap old new run ≠ [],
    isWord ((swap old new run).getLast h) = isWord (run.getLast hne) ∧
      isWord ((swap old new run).head h) = isWord (run.head hne) := by
  unfold swap
  split
  · rename_i hrun
    subst hrun
    exact ⟨hnew.1, by rw [hnew.2 _ (List.getLast_mem _), hold.2 _ (List.getLast_mem _)],
      by rw [hnew.2 _ (List.head_mem _), hold.2 _ (List.head_mem _)]⟩
  · exact ⟨hne, rfl, rfl⟩

/-- **The runs around the new words are those around the old ones.** -/
theorem runs_renamed (text : List Char) :
    runs (renamed old new text) = (runs text).map (swap old new) := by
  -- pieces are the runs of a text if none is empty, each is of one sort, and neighbours are not
  refine List.splitBy_flatten ?_ ?_ ?_
  · intro hnil
    obtain ⟨run, hrun, he⟩ := List.mem_map.1 hnil
    exact (swap_ends hold hnew (List.ne_nil_of_mem_splitBy hrun)).1 he
  · rw [List.forall_mem_map]
    intro run hrun
    unfold swap
    split
    · exact hnew.isChain
    · exact List.isChain_of_mem_splitBy hrun
  · rw [List.isChain_map]
    refine (List.isChain_getLast_head_splitBy _ text).imp ?_
    rintro a b ⟨ha, hb, hedge⟩
    obtain ⟨ha', hlast, -⟩ := swap_ends hold hnew ha
    obtain ⟨hb', -, hhead⟩ := swap_ends hold hnew hb
    exact ⟨ha', hb', by rw [hlast, hhead]; exact hedge⟩

/-- The old word is gone. -/
theorem not_wordIn_renamed (hne : old ≠ new) : ¬ WordIn old (renamed old new text) i := by
  rw [wordIn_iff_runs hold, runs_renamed hold hnew]
  rintro ⟨left, right, h, -⟩
  obtain ⟨run, -, hrun⟩ := List.mem_map.1 (h ▸ (by simp) : old ∈ (runs text).map (swap old new))
  unfold swap at hrun
  split at hrun
  · exact hne hrun.symm
  · contradiction

/-- **The way back**, for a text without the new word. -/
theorem renamed_renamed (h : ∀ i, ¬ WordIn new text i) :
    renamed new old (renamed old new text) = text := by
  have hback : (runs text).map (swap new old ∘ swap old new) = runs text := by
    refine (List.map_congr_left fun run hrun => swap_swap ?_).trans (List.map_id _)
    rintro rfl
    obtain ⟨left, right, he⟩ := List.append_of_mem hrun
    exact h _ (wordIn_of_runs hnew he)
  rw [renamed, runs_renamed hold hnew, List.map_map, hback, flatten_runs]

end Renamed

end PhpRename.Mention
