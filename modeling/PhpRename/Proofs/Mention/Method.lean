import PhpRename.Proofs.Mention.Order
import PhpRename.Proofs.Mention.Word

/-!
# The mentions of a method

A method is mentioned where its name stands behind its class, and where the bare name is neither a
member of something else nor a variable. A class and a member written after it may not be the
beginning of another such pair, since the member is not the class. So a scan for the pairs misses
none of them, and the two rules for a method share no place: what stands behind the class is
guarded.

* `mem_memberPlaces_iff`: the places found for a member are those of its whole word behind the class.
* `claims_ofMethod`: both rules claim all that they find.
* `find_ofMethod`: the mentions of a method.
-/

namespace PhpRename.Mention

open Text Unicode

variable {cls member mark word text before gap after : List Char} {i j k lead : Nat}
variable {cls' old new : String} {place : Place}

/-- The text before byte `i` ends with the whole class and what stands between it and a member. -/
def BehindClass (cls text : List Char) (i : Nat) : Prop :=
  ∃ front, ∃ mark ∈ memberMarks, upTo text i = front ++ cls ++ mark ∧
    front.getLast?.any isWord = false

/-- The text before byte `i` ends with an arrow, a double colon or a dollar sign. -/
def Guarded (text : List Char) (i : Nat) : Prop :=
  ∃ guard ∈ ["->", "::", "$"], guard.toList <:+ upTo text i

theorem isWord_of_mem_memberMarks (h : mark ∈ memberMarks) : ∀ c ∈ mark, isWord c = false := by
  have hall : ∀ mark ∈ memberMarks, mark.all (fun c => !isWord c) = true := by decide
  intro c hc
  simpa using List.all_eq_true.1 (hall mark h) c hc

theorem head?_any_mark (h : mark ∈ memberMarks) (after : List Char) :
    (mark ++ after).head?.any isWord = false := by
  have hgap := isWord_of_mem_memberMarks h
  cases mark with
  | nil => exact absurd (width_of_mem_memberMarks h) (by decide)
  | cons c mark => exact hgap c List.mem_cons_self

theorem getLast?_any_mark (h : mark ∈ memberMarks) (before : List Char) :
    (before ++ mark).getLast?.any isWord = false := by
  have hne : mark ≠ [] := by rintro rfl; exact absurd (width_of_mem_memberMarks h) (by decide)
  rw [List.getLast?_append_of_ne_nil _ hne, List.getLast?_eq_some_getLast hne]
  exact isWord_of_mem_memberMarks h _ (List.getLast_mem hne)

/-- Whatever stands between class and member, the member begins two bytes behind the class. -/
theorem exists_memberAt? (hmark : mark ∈ memberMarks)
    (hat : wordAt (cls ++ mark ++ member) before after = true) :
    ∃ k, memberAt? cls member before after = some (width cls + 2, k) := by
  have hsome : (memberAt? cls member before after).isSome = true :=
    List.findSome?_isSome_iff.2 ⟨mark, hmark, by rw [if_pos hat]; rfl⟩
  obtain ⟨⟨lead, k⟩, hfind⟩ := Option.isSome_iff_exists.1 hsome
  obtain ⟨mark', hmark', rfl, -⟩ := exists_mark_of_memberAt? hfind
  rw [width_append, width_of_mem_memberMarks hmark'] at hfind
  exact ⟨k, hfind⟩

/-- A whole word does not begin in a stretch of characters that are no word characters. -/
theorem wordIn_outside (hw : IsWord word) (hgap : ∀ c ∈ gap, isWord c = false)
    (h : WordIn word (before ++ gap ++ after) j) : j < width before ∨ width (before ++ gap) ≤ j := by
  obtain ⟨pre, post, he, rfl, -⟩ := h
  by_contra hinside
  rw [not_or, Nat.not_lt, Nat.not_le] at hinside
  obtain ⟨hlow, hhigh⟩ := hinside
  rw [List.append_assoc, List.append_assoc] at he
  obtain ⟨front, rfl, hbehind⟩ := exists_append_of_width_le he hlow
  rw [width_append, width_append] at hhigh
  obtain ⟨rest, rfl, hword⟩ := exists_append_of_width_le hbehind.symm (by omega)
  -- the first character of the word is one of the stretch
  have hhead := hw.head?_any post
  cases rest with
  | nil => rw [List.append_nil] at hhigh; omega
  | cons c rest =>
    rw [hword, List.cons_append, List.head?_cons, Option.any_some, hgap c (by simp)] at hhead
    cases hhead

/-- Where class and member stand as one, both stand as whole words. -/
theorem wordIn_pair (cls member : List Char) (hmark : mark ∈ memberMarks)
    (hfront : before.getLast?.any isWord = false) (hback : after.head?.any isWord = false) :
    WordIn cls (before ++ (cls ++ mark ++ member ++ after)) (width before) ∧
      WordIn member (before ++ (cls ++ mark ++ member ++ after)) (width (before ++ cls ++ mark)) := by
  constructor
  · refine ⟨before, mark ++ (member ++ after), by simp only [List.append_assoc], rfl, hfront, ?_⟩
    exact head?_any_mark hmark _
  · refine ⟨before ++ cls ++ mark, after, by simp only [List.append_assoc], rfl, ?_, hback⟩
    exact getLast?_any_mark hmark _

section Pair

variable (hcls : IsWord cls) (hmember : IsWord member)
include hcls hmember

/-- The class, the mark and the member stand as one where no word character is on either side. -/
theorem wordAt_pair_iff : wordAt (cls ++ mark ++ member) before.reverse after = true ↔
    ∃ rest, after = cls ++ mark ++ member ++ rest ∧ before.getLast?.any isWord = false ∧
      rest.head?.any isWord = false := by
  refine wordAt_iff_of_ends (fun after => ?_) fun before => ?_
  · rw [List.append_assoc, List.append_assoc]
    exact hcls.head?_any _
  · rw [← List.append_assoc]
    exact hmember.getLast?_any _

/-- A member behind its class ends before the class of a later pair begins. -/
theorem pair_apart (hne : cls ≠ member) {front rest post : List Char}
    (hmark : mark ∈ memberMarks) (hfront : front.getLast?.any isWord = false)
    (hback : after.head?.any isWord = false) (hrest : rest ≠ [])
    (he : rest ++ post = cls ++ mark ++ member ++ after)
    (hlater : WordIn cls (front ++ (rest ++ post)) (width (front ++ rest))) :
    width (cls ++ mark ++ member) ≤ width rest := by
  obtain ⟨hfirst, hsecond⟩ := wordIn_pair cls member hmark hfront hback
  have hpos := Nat.pos_of_ne_zero (mt width_eq_zero.1 hrest)
  have hcpos := Nat.pos_of_ne_zero (mt width_eq_zero.1 hcls.1)
  rw [he] at hlater
  -- the later class begins behind the class, behind what stands between, and behind the member
  have hclass := wordIn_apart hcls hcls hfirst hlater
  have hbetween : WordIn cls (front ++ cls ++ mark ++ (member ++ after)) (width (front ++ rest)) := by
    simpa only [List.append_assoc] using hlater
  have hbetween := wordIn_outside hcls (isWord_of_mem_memberMarks hmark) hbetween
  have hapart := wordIn_apart hmember hcls hsecond hlater
  simp only [width_append, Ne.symm hne, and_false, false_or] at *
  omega

/-- **The places found for a member** are those of its whole word behind the class. -/
theorem mem_memberPlaces_iff (hne : cls ≠ member) :
    i ∈ memberPlaces cls member text ↔ WordIn member text i ∧ BehindClass cls text i := by
  constructor
  · intro h
    obtain ⟨⟨start, lead⟩, hscan, rfl⟩ := List.mem_map.1 h
    obtain ⟨pre, post, k, rfl, rfl, hf⟩ := mem_scan_nil hscan
    obtain ⟨mark, hmark, rfl, -, hat⟩ := exists_mark_of_memberAt? hf
    obtain ⟨rest, rfl, hfront, hback⟩ := (wordAt_pair_iff hcls hmember).1 hat
    have hsecond := (wordIn_pair cls member hmark hfront hback).2
    have hcut := upTo_append (member ++ rest) (rfl : width (pre ++ cls ++ mark) = _)
    dsimp only
    rw [← width_append, ← List.append_assoc pre]
    simp only [List.append_assoc] at hsecond hcut ⊢
    exact ⟨hsecond, pre, mark, hmark, by simp only [hcut, List.append_assoc], hfront⟩
  · rintro ⟨⟨pre, after, rfl, rfl, -, hback⟩, front, mark, hmark, hpre, hfront⟩
    rw [List.append_assoc, upTo_append _ rfl] at hpre
    subst hpre
    have hat : wordAt (cls ++ mark ++ member) front.reverse (cls ++ mark ++ member ++ after) = true :=
      (wordAt_pair_iff hcls hmember).2 ⟨after, rfl, hfront, hback⟩
    obtain ⟨k, hf⟩ := exists_memberAt? hmark hat
    have hfirst := (wordIn_pair cls member hmark hfront hback).1
    have hscan := mem_scan_nil_of_find hf fun front' rest b n hsplit hrest hf' => ?_
    · have hlead : width (front ++ cls ++ mark) = width front + (width cls + 2) := by
        rw [width_append, width_append, width_of_mem_memberMarks hmark, Nat.add_assoc]
      simp only [List.append_assoc] at hscan hlead ⊢
      exact List.mem_map.2 ⟨_, hscan, hlead.symm⟩
    subst hsplit
    obtain ⟨mark', hmark', -, rfl, hat'⟩ := exists_mark_of_memberAt? hf'
    obtain ⟨after', he, hfront', hback'⟩ := (wordAt_pair_iff hcls hmember).1 hat'
    rw [List.append_assoc front'] at hfirst
    have hle := pair_apart hcls hmember hne hmark' hfront' hback' hrest he hfirst
    obtain ⟨gap, rfl, -⟩ := exists_append_of_width_le he.symm hle
    exact (List.prefix_append _ gap).length_le

end Pair

/-! ## The two rules -/

/-- What stands behind the class is guarded. -/
theorem guarded_of_behindClass (h : BehindClass cls text i) : Guarded text i := by
  obtain ⟨front, mark, hmark, hupTo, -⟩ := h
  have hall : ∀ mark ∈ memberMarks, ∃ guard ∈ ["->", "::", "$"], guard.toList = mark := by decide
  obtain ⟨guard, hguard, rfl⟩ := hall mark hmark
  exact ⟨guard, hguard, hupTo ▸ List.suffix_append _ _⟩

theorem any_endsWith_iff {guards : List String} :
    (guards.any fun g => endsWith (upTo text i).reverse g.toList) = true ↔
      ∃ guard ∈ guards, guard.toList <:+ upTo text i := by
  simp only [List.any_eq_true, endsWith, List.isPrefixOf_iff_prefix, List.reverse_prefix]

section Rules

variable (hold : IsWord old.toList)
include hold

/-- The guards of the bare name keep it from standing where the text is guarded. -/
theorem mem_candidates_guarded : place ∈ (Rule.word old new ["->", "::", "$"]).candidates text ↔
    ∃ i, WordIn old.toList text i ∧ ¬ Guarded text i ∧ wordPlace old new i = place := by
  simp only [Rule.candidates, List.mem_map, List.mem_filter, Bool.not_eq_true', ← Bool.not_eq_true,
    any_endsWith_iff, mem_wordPlaces_iff hold, and_assoc]
  rfl

theorem mem_candidates_qualified (hcls : IsWord cls'.toList) (hne : cls' ≠ old) :
    place ∈ (Rule.qualified cls' old new).candidates text ↔
      ∃ i, WordIn old.toList text i ∧ BehindClass cls'.toList text i ∧ wordPlace old new i = place := by
  simp only [Rule.candidates, List.mem_map,
    mem_memberPlaces_iff hcls hold (fun he => hne (String.toList_injective he)), and_assoc]
  rfl

theorem wordPlace_apart (hi : WordIn old.toList text i) (hj : WordIn old.toList text j) (hne : i ≠ j) :
    (wordPlace old new i).meets (wordPlace old new j) = false := by
  have h := wordIn_apart hold hold hi hj
  rw [← utf8ByteSize_eq_width] at h
  rw [Place.meets, Bool.and_eq_false_iff, decide_eq_false_iff_not, decide_eq_false_iff_not]
  simp only [wordPlace]
  omega

/-- What the two rules find begins at different places. -/
theorem candidates_ofMethod_pairwise (hcls : IsWord cls'.toList) (hne : cls' ≠ old) :
    ((Rule.qualified cls' old new).candidates text ++
      (Rule.word old new ["->", "::", "$"]).candidates text).Pairwise
        fun p q => p.start ≠ q.start := by
  refine List.pairwise_append.2 ⟨?_, ?_, ?_⟩
  · exact (Rule.candidates_pairwise _ text).imp fun h => Nat.ne_of_lt h.1
  · exact (Rule.candidates_pairwise _ text).imp fun h => Nat.ne_of_lt h.1
  · intro p hp q hq he
    obtain ⟨i, -, hbehind, rfl⟩ := (mem_candidates_qualified hold hcls hne).1 hp
    obtain ⟨j, -, hfree, rfl⟩ := (mem_candidates_guarded hold).1 hq
    obtain rfl : i = j := he
    exact hfree (guarded_of_behindClass hbehind)

/-- **Both rules claim all that they find.** -/
theorem claims_ofMethod (hcls : IsWord cls'.toList) (hne : cls' ≠ old) (hchange : old ≠ new) :
    claims (ofMethod cls' old new) text = (Rule.qualified cls' old new).candidates text ++
      (Rule.word old new ["->", "::", "$"]).candidates text := by
  let found := (Rule.qualified cls' old new).candidates text ++
    (Rule.word old new ["->", "::", "$"]).candidates text
  have hword : ∀ p ∈ found, ∃ i, WordIn old.toList text i ∧ wordPlace old new i = p := by
    intro p hp
    rcases List.mem_append.1 hp with hp | hp
    · obtain ⟨i, hi, -, rfl⟩ := (mem_candidates_qualified hold hcls hne).1 hp
      exact ⟨i, hi, rfl⟩
    · obtain ⟨i, hi, -, rfl⟩ := (mem_candidates_guarded hold).1 hp
      exact ⟨i, hi, rfl⟩
  -- two places of one word that do not begin alike have no bytes in common
  have hapart : found.Pairwise fun p q => q.meets p = false := by
    refine (candidates_ofMethod_pairwise hold hcls hne).imp_of_mem fun {p q} hp hq hpq => ?_
    obtain ⟨i, hi, rfl⟩ := hword p hp
    obtain ⟨j, hj, rfl⟩ := hword q hq
    exact wordPlace_apart hold hj hi (Ne.symm hpq)
  have hidle : ∀ p ∈ found, p.isIdle text = false := by
    intro p hp
    obtain ⟨i, hi, rfl⟩ := hword p hp
    have hslice := (standsAt_of_mem_wordPlaces ((mem_wordPlaces_iff hold).2 hi)).slice_eq
    rw [← utf8ByteSize_eq_width] at hslice
    simp only [wordPlace, Place.isIdle, hslice, decide_eq_false_iff_not]
    exact fun he => hchange (String.toList_injective he)
  have hfirst : ((Rule.qualified cls' old new).candidates text).foldl (claim text) [] =
      (Rule.qualified cls' old new).candidates text :=
    foldl_claim_of_apart (List.pairwise_append.1 hapart).1
      fun p hp => hidle p (List.mem_append_left _ hp)
  rw [claims, ofMethod, List.foldl_cons, List.foldl_cons, List.foldl_nil, hfirst]
  exact foldl_claim_of_apart hapart fun p hp => hidle p (List.mem_append_right _ hp)

end Rules

/-- **The mentions of a method** are its name behind its class, and its bare name where the text is
not guarded. They come in text order, no two of them at one place. -/
theorem find_ofMethod {cls old new : String} (hcls : IsWord cls.toList) (hold : IsWord old.toList)
    (hne : cls ≠ old) (hchange : old ≠ new) (text : List Char) :
    (find (ofMethod cls old new) text).Pairwise (fun p q => p.start < q.start) ∧
      ∀ place, place ∈ find (ofMethod cls old new) text ↔
        ∃ i, WordIn old.toList text i ∧ (BehindClass cls.toList text i ∨ ¬ Guarded text i) ∧
          place = ⟨i, i + old.utf8ByteSize, new⟩ := by
  have hclaims : claims (ofMethod cls old new) text = _ := claims_ofMethod hold hcls hne hchange
  constructor
  · have hdistinct : (find (ofMethod cls old new) text).Pairwise fun p q => p.start ≠ q.start := by
      refine (List.mergeSort_perm _ _).pairwise_iff (fun h => h.symm) |>.2 ?_
      rw [hclaims]
      exact candidates_ofMethod_pairwise hold hcls hne
    exact ((find_sorted _ _).and hdistinct).imp fun h => Nat.lt_of_le_of_ne h.1 h.2
  · intro place
    rw [find, List.mem_mergeSort, hclaims, List.mem_append, mem_candidates_qualified hold hcls hne,
      mem_candidates_guarded hold, ← exists_or]
    refine exists_congr fun i => ?_
    rw [← and_or_left, ← or_and_right, eq_comm (b := place)]
    rfl

/-- Behind the class, behind another one, and by itself. -/
theorem find_ofMethod_widget :
    (find (ofMethod "Widget" "render" "draw") "Widget::render $x->render render".toList).Pairwise
      (fun p q => p.start < q.start) ∧
      ∀ place, place ∈ find (ofMethod "Widget" "render" "draw")
          "Widget::render $x->render render".toList ↔
        ∃ i, WordIn "render".toList "Widget::render $x->render render".toList i ∧
          (BehindClass "Widget".toList "Widget::render $x->render render".toList i ∨
            ¬ Guarded "Widget::render $x->render render".toList i) ∧
          place = ⟨i, i + 6, "draw"⟩ :=
  find_ofMethod (by decide) (by decide) (by decide) (by decide) _

end PhpRename.Mention
