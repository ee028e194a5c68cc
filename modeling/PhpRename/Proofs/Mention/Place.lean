import PhpRename.Mention.Basic
import PhpRename.Proofs.Text.Occurrence

/-!
# Where mentions stand

* `Rule.Matched`: what a rule has matched at a place, in the rule's own terms: its word, its
  member, or the whole match of its pattern.
* `Rule.exists_matched`: a place that a rule finds is where what it has matched stands.
* `exists_rule_of_mem_find`: the mentions in a text are places that the rules find.
* `find_sorted`: the mentions come in text order.
-/

namespace PhpRename.Mention

open Text

variable {word text before after : List Char} {place : Place} {rules : List Rule} {i : Nat}

theorem wordAt_iff : wordAt word before after = true ↔
    ∃ rest, after = word ++ rest ∧ atEdge before after = true ∧
      atEdge (word.reverse ++ before) rest = true := by
  rw [wordAt]
  cases h : stripStart? word after with
  | none =>
    refine ⟨fun h => (Bool.false_ne_true h).elim, ?_⟩
    rintro ⟨rest, he, -⟩
    rw [stripStart?_eq_some_iff.2 he] at h
    cases h
  | some rest =>
    have he := stripStart?_eq_some_iff.1 h
    rw [Bool.and_eq_true]
    constructor
    · exact fun hedges => ⟨rest, he, hedges⟩
    · rintro ⟨rest', he', hedges⟩
      rw [he, List.append_cancel_left_eq] at he'
      rwa [he']

/-- What is found where a word stands. -/
def findWord (word before after : List Char) : Option (Unit × Nat) :=
  if wordAt word before after then some ((), word.length) else none

theorem mem_wordPlaces : i ∈ wordPlaces word text ↔ (i, ()) ∈ scan (findWord word) [] 0 text := by
  change i ∈ (scan (findWord word) [] 0 text).map Prod.fst ↔ _
  rw [List.mem_map]
  exact ⟨fun ⟨(_, ()), h, he⟩ => he ▸ h, fun h => ⟨(i, ()), h, rfl⟩⟩

theorem findWord_eq_some {a : Unit} {k : Nat}
    (h : findWord word before after = some (a, k)) : k = word.length ∧ ∃ rest, after = word ++ rest := by
  rw [findWord] at h
  split at h
  · rename_i hat
    cases h
    obtain ⟨rest, he, -⟩ := wordAt_iff.1 hat
    exact ⟨rfl, rest, he⟩
  · cases h

theorem standsAt_of_mem_wordPlaces (h : i ∈ wordPlaces word text) :
    StandsAt text word i (i + width word) := by
  obtain ⟨pre, post, k, rfl, rfl, hf⟩ := mem_scan_nil (mem_wordPlaces.1 h)
  obtain ⟨-, rest, rfl⟩ := findWord_eq_some hf
  rw [← List.append_assoc]
  exact standsAt_append pre word rest

theorem standsAt_of_mem_memberPlaces {cls member : List Char}
    (h : i ∈ memberPlaces cls member text) : StandsAt text member i (i + width member) := by
  obtain ⟨⟨start, lead⟩, hscan, rfl⟩ := List.mem_map.1 h
  obtain ⟨pre, post, k, rfl, rfl, hf⟩ := mem_scan_nil hscan
  obtain ⟨mark, -, hf⟩ := List.exists_of_findSome?_eq_some hf
  dsimp only at hf
  split at hf
  · rename_i hw
    cases hf
    obtain ⟨rest, rfl, -⟩ := wordAt_iff.1 hw
    have := standsAt_append (pre ++ (cls ++ mark)) member rest
    simp only [List.append_assoc, width_append] at this ⊢
    exact this
  · cases hf

/-- What the rule has matched at a place that it found in the text. -/
def Rule.Matched (rule : Rule) (text : List Char) (place : Place) (matched : List Char) : Prop :=
  match rule with
  | .qualified _ member _ => matched = member.toList
  | .word w _ _ => matched = w.toList
  | .pattern p _ => ∃ m ∈ p.findAll text, m.start = place.start ∧ m.stop = place.stop ∧
      m.groups.head? = some (some (String.ofList matched))

/-- The whole match of a pattern stands where the match says. -/
theorem standsAt_matchOf (p : Pattern) (text : List Char) (m : Pattern.Found) :
    ∃ matched,
      StandsAt text matched (p.matchOf text.toArray m).start (p.matchOf text.toArray m).stop ∧
      (p.matchOf text.toArray m).groups.head? = some (some (String.ofList matched)) := by
  -- the text from the later of the two places on is what is left when the match is cut off
  refine ⟨(text.drop m.start).take (m.stop - m.start),
    ⟨text.take m.start, (text.drop m.start).drop (m.stop - m.start), ?_, ?_, ?_⟩, ?_⟩
  · rw [List.append_assoc, List.take_append_drop, List.take_append_drop]
  · simp [Pattern.matchOf]
  · simp [Pattern.matchOf]
  · simp [Pattern.matchOf, Pattern.kept]

/-- **A place that a rule finds is where what it has matched stands.** -/
theorem Rule.exists_matched {rule : Rule} (h : place ∈ rule.candidates text) :
    ∃ matched, rule.Matched text place matched ∧ StandsAt text matched place.start place.stop := by
  cases rule with
  | qualified cls member replacement =>
    obtain ⟨start, hstart, rfl⟩ := List.mem_map.1 h
    refine ⟨member.toList, rfl, ?_⟩
    rw [utf8ByteSize_eq_width]
    exact standsAt_of_mem_memberPlaces hstart
  | word w replacement guards =>
    obtain ⟨start, hstart, rfl⟩ := List.mem_map.1 h
    refine ⟨w.toList, rfl, ?_⟩
    rw [utf8ByteSize_eq_width]
    exact standsAt_of_mem_wordPlaces (List.mem_filter.1 hstart).1
  | pattern p template =>
    obtain ⟨m, hm, rfl⟩ := List.mem_map.1 h
    obtain ⟨found, -, rfl⟩ := List.mem_map.1 hm
    obtain ⟨matched, hs, hg⟩ := standsAt_matchOf p text found
    exact ⟨matched, ⟨_, hm, rfl, rfl, hg⟩, hs⟩

/-! ## Claims -/

theorem mem_claim {claimed : List Place} {q : Place} (h : q ∈ claim text claimed place) :
    q ∈ claimed ∨ q = place := by
  rw [claim] at h
  split at h
  · exact .inl h
  · rcases List.mem_append.1 h with h | h
    · exact .inl h
    · exact .inr (List.mem_singleton.1 h)

theorem mem_foldl_claim {places claimed : List Place}
    (h : place ∈ places.foldl (claim text) claimed) : place ∈ claimed ∨ place ∈ places := by
  induction places generalizing claimed with
  | nil => exact .inl h
  | cons p places ih =>
    rcases ih h with h | h
    · rcases mem_claim h with h | rfl
      · exact .inl h
      · exact .inr List.mem_cons_self
    · exact .inr (List.mem_cons_of_mem _ h)

theorem exists_rule_of_mem_foldl {claimed : List Place}
    (h : place ∈ rules.foldl (fun claimed rule => (rule.candidates text).foldl (claim text) claimed)
      claimed) : place ∈ claimed ∨ ∃ rule ∈ rules, place ∈ rule.candidates text := by
  induction rules generalizing claimed with
  | nil => exact .inl h
  | cons rule rules ih =>
    rcases ih h with h | ⟨rule', hr, hp⟩
    · rcases mem_foldl_claim h with h | h
      · exact .inl h
      · exact .inr ⟨rule, List.mem_cons_self, h⟩
    · exact .inr ⟨rule', List.mem_cons_of_mem _ hr, hp⟩

/-- **The mentions in a text are places that the rules find.** -/
theorem exists_rule_of_mem_find (h : place ∈ find rules text) :
    ∃ rule ∈ rules, place ∈ rule.candidates text :=
  (exists_rule_of_mem_foldl (List.mem_mergeSort.1 h)).resolve_left List.not_mem_nil

/-- **The mentions come in text order.** -/
theorem find_sorted (rules : List Rule) (text : List Char) :
    (find rules text).Pairwise fun p q => p.start ≤ q.start := by
  have htrans : ∀ p q r : Place, decide (p.start ≤ q.start) = true → decide (q.start ≤ r.start) = true →
      decide (p.start ≤ r.start) = true := by simp only [decide_eq_true_eq]; omega
  have htotal : ∀ p q : Place, (decide (p.start ≤ q.start) || decide (q.start ≤ p.start)) = true := by
    simp only [Bool.or_eq_true, decide_eq_true_eq]; omega
  exact (List.pairwise_mergeSort htrans htotal _).imp of_decide_eq_true

end PhpRename.Mention
