import PhpRename.Proofs.Edit.Splice
import PhpRename.Proofs.Mention.Class
import PhpRename.Proofs.Mention.Runs

/-!
# Writing one word for another

When the mentions of a class in a text are replaced, each run of the text that is the old name gives
way to the new one, and nothing else changes. So if the new name was not a word of the text, it is now
one exactly where the old name was, and replacing it by the old one leads back.

* `replaceAll_ofClass`: what replacing the mentions of a class makes of a text.
* `replaceAll_and_back`: there and back.
-/

namespace PhpRename.Mention

open Text Unicode

variable {old new word front mid : List Char} {pieces : List (List Char)} {i n : Nat}

/-- The bytes at which the word begins among pieces of text that follow one another, the first of
them from byte `n` on. -/
def startsOf (word : List Char) : Nat → List (List Char) → List Nat
  | _, [] => []
  | n, piece :: rest => (if piece = word then [n] else []) ++ startsOf word (n + width piece) rest

theorem mem_startsOf : i ∈ startsOf word n pieces ↔
    ∃ left right, pieces = left ++ word :: right ∧ n + width left.flatten = i := by
  induction pieces generalizing n with
  | nil => simp [startsOf]
  | cons piece rest ih =>
    rw [startsOf, List.mem_append, ih]
    constructor
    · rintro (hi | ⟨left, right, rfl, rfl⟩)
      · split at hi
        · rename_i hpiece
          exact ⟨[], rest, by rw [hpiece, List.nil_append], (List.mem_singleton.1 hi).symm⟩
        · cases hi
      · exact ⟨piece :: left, right, rfl, by rw [List.flatten_cons, width_append, Nat.add_assoc]⟩
    · rintro ⟨left, right, he, rfl⟩
      cases left with
      | nil =>
        obtain ⟨rfl, rfl⟩ := List.cons.inj he
        exact .inl (by rw [if_pos rfl]; exact List.mem_singleton.2 rfl)
      | cons piece' left =>
        obtain ⟨rfl, rfl⟩ := List.cons.inj he
        exact .inr ⟨left, right, rfl, by rw [List.flatten_cons, width_append, Nat.add_assoc]⟩

theorem startsOf_pairwise (hw : word ≠ []) (n : Nat) (pieces : List (List Char)) :
    (startsOf word n pieces).Pairwise (· < ·) := by
  induction pieces generalizing n with
  | nil => exact .nil
  | cons piece rest ih =>
    refine List.pairwise_append.2 ⟨?_, ih _, fun i hi j hj => ?_⟩
    · split
      · exact List.pairwise_singleton ..
      · exact .nil
    · split at hi
      · rename_i hpiece
        obtain rfl := List.mem_singleton.1 hi
        obtain ⟨left, -, -, rfl⟩ := mem_startsOf.1 hj
        have := Nat.pos_of_ne_zero (mt width_eq_zero.1 (hpiece ▸ hw))
        omega
      · cases hi

/-- The places found for a word are where the runs begin that are the word. -/
theorem wordPlaces_eq_startsOf (hw : IsWord word) (text : List Char) :
    wordPlaces word text = startsOf word 0 (runs text) := by
  -- both are in order without repetition, so it is enough that they have the same members
  refine List.Pairwise.eq_of_mem_iff (r := (· < ·)) ((wordPlaces_pairwise word text).imp And.left)
    (startsOf_pairwise hw.1 _ _) fun i => ?_
  rw [mem_wordPlaces_iff hw, wordIn_iff_runs hw, mem_startsOf]
  simp only [Nat.zero_add]

/-! ## Replacing -/

/-- The edit that writes what is to be written at the place, in a file that holds the text. -/
def Place.edit (p : Place) : Edit :=
  ⟨⟨""⟩, p.start, p.stop - p.start, p.replacement, .ambiguous, 1⟩

/-- The text with all its mentions replaced. -/
def replaceAll (rules : List Rule) (text : List Char) : Except Edit.Fault (List Char) :=
  Edit.splice text ((find rules text).map Place.edit)

section Weave

variable {old new : String}

theorem stop_edit_wordPlace (old new : String) (i : Nat) :
    (wordPlace old new i).edit.stop = i + width old.toList := by
  rw [← utf8ByteSize_eq_width]
  exact congrArg (i + ·) (Nat.add_sub_cancel_left ..)

/-- Weaving the new word into a text wherever one of its pieces is the old one. The text before the
pieces is `front`, which is done, and `mid`, which is still to be put in. -/
theorem weave_startsOf (old new : String) {content : List Char} (front mid : List Char)
    (h : content = front ++ mid ++ pieces.flatten) :
    Edit.weave content (width front) (width content)
      ((startsOf old.toList (width (front ++ mid)) pieces).map fun i => (wordPlace old new i).edit) =
      mid ++ (pieces.map (swap old.toList new.toList)).flatten := by
  induction pieces generalizing front mid with
  | nil =>
    rw [List.flatten_nil, List.append_nil] at h
    subst h
    have hmid : slice (front ++ mid ++ []) (width front) (width (front ++ mid)) = mid :=
      slice_append [] rfl rfl
    rw [List.append_nil] at hmid
    exact hmid.trans (List.append_nil mid).symm
  | cons piece rest ih =>
    -- an edit first puts in what is pending; a piece that is not the old word becomes pending
    have hmid : slice content (width front) (width (front ++ mid)) = mid := by
      rw [h]; exact slice_append _ rfl rfl
    rw [List.flatten_cons] at h
    rw [startsOf, List.map_cons, List.flatten_cons, swap, ← width_append]
    split
    · rename_i hpiece
      have hstop : (wordPlace old new (width (front ++ mid))).edit.stop =
          width (front ++ mid ++ piece) := by
        rw [stop_edit_wordPlace, width_append (front ++ mid), hpiece]
      have hnext := ih (front ++ mid ++ piece) []
        (by rw [h]; simp only [List.append_assoc, List.append_nil])
      rw [List.append_nil, List.nil_append] at hnext
      rw [List.singleton_append, List.map_cons, Edit.weave, hstop, hnext, List.append_assoc]
      exact congrArg (· ++ _) hmid
    · have hnext := ih front (mid ++ piece)
        (by rw [h]; simp only [List.append_assoc])
      rw [← List.append_assoc] at hnext
      rw [List.nil_append, hnext, List.append_assoc]

/-- **Replacing the mentions of a class** writes the new name wherever a run is the old one. -/
theorem replaceAll_ofClass (hold : IsWord old.toList) (hne : old ≠ new) (text : List Char) :
    replaceAll (ofClass old new) text = .ok (renamed old.toList new.toList text) := by
  let edits := (find (ofClass old new) text).map Place.edit
  have hedits : edits = (wordPlaces old.toList text).map fun i => (wordPlace old new i).edit := by
    simp only [edits, find_ofClass hne, List.map_map]
    rfl
  have hapart : Edit.Apart edits := by
    rw [hedits, Edit.Apart, List.pairwise_map]
    refine (wordPlaces_pairwise old.toList text).imp fun {i j} hij => ?_
    rw [← Bool.not_eq_true, Edit.overlaps_iff, stop_edit_wordPlace, stop_edit_wordPlace]
    simp only [wordPlace, Place.edit]
    omega
  have hfit : ∀ e ∈ edits, e.fits text = true := by
    rw [hedits, List.forall_mem_map]
    intro i hi
    have hstands := standsAt_of_mem_wordPlaces hi
    rw [Edit.fits_iff, stop_edit_wordPlace]
    exact ⟨hstands.isBoundary_start, hstands.isBoundary_stop⟩
  have hsorted : edits.mergeSort Edit.before = edits := by
    refine List.mergeSort_of_pairwise ?_
    rw [hedits, List.pairwise_map]
    exact (wordPlaces_pairwise old.toList text).imp fun hij => Edit.before_iff.2 (.inl hij.1)
  have hweave := weave_startsOf old new [] [] (flatten_runs text).symm
  rw [replaceAll, Edit.splice_of_apart hapart hfit, hsorted, hedits, wordPlaces_eq_startsOf hold]
  exact congrArg Except.ok hweave

end Weave

/-- **Writing one word for another and back restores the text.** In between stands the new word
wherever a run was the old one, and the old one is nowhere. -/
theorem replaceAll_and_back {old new : String} (hold : IsWord old.toList) (hnew : IsWord new.toList)
    (hne : old ≠ new) {text : List Char} (habsent : ∀ i, ¬ WordIn new.toList text i) :
    ∃ text', replaceAll (ofClass old new) text = .ok text' ∧
      text' = renamed old.toList new.toList text ∧ (∀ i, ¬ WordIn old.toList text' i) ∧
      find (ofClass old new) text' = [] ∧ replaceAll (ofClass new old) text' = .ok text := by
  have hne' : old.toList ≠ new.toList := fun he => hne (String.toList_injective he)
  have hgone : ∀ i, ¬ WordIn old.toList (renamed old.toList new.toList text) i := fun i =>
    not_wordIn_renamed hold hnew hne'
  refine ⟨_, replaceAll_ofClass hold hne text, rfl, hgone, ?_, ?_⟩
  · refine List.eq_nil_iff_forall_not_mem.2 fun place hplace => ?_
    obtain ⟨i, hi, -⟩ := exists_wordPlaces_of_mem_find hplace
    exact hgone i ((mem_wordPlaces_iff hold).1 hi)
  · rw [replaceAll_ofClass hnew hne.symm, renamed_renamed hold hnew habsent]

/-- Words that contain one another, one of them next to a letter of two bytes. -/
theorem replaceAll_and_back_foo :
    let text := "Foo, aFoo, éFoo Foo".toList
    let text' := "FooBar, aFoo, éFoo FooBar".toList
    replaceAll (ofClass "Foo" "FooBar") text = .ok text' ∧ (∀ i, ¬ WordIn "Foo".toList text' i) ∧
      find (ofClass "Foo" "FooBar") text' = [] ∧
      replaceAll (ofClass "FooBar" "Foo") text' = .ok text := by
  intro text text'
  have hold : IsWord "Foo".toList := by decide
  have hnew : IsWord "FooBar".toList := by decide
  have habsent : ∀ i, ¬ WordIn "FooBar".toList text i := by
    intro i hi
    have hnone : wordPlaces "FooBar".toList text = [] := by decide
    rw [← mem_wordPlaces_iff hnew, hnone] at hi
    cases hi
  have hbetween : renamed "Foo".toList "FooBar".toList text = text' := by decide
  obtain ⟨between, hreplaced, rfl, hgone, hfind, hback⟩ :=
    replaceAll_and_back hold hnew (by decide) habsent
  rw [hbetween] at hreplaced hgone hfind hback
  exact ⟨hreplaced, hgone, hfind, hback⟩

end PhpRename.Mention
