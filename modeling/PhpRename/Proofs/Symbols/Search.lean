import Mathlib.Data.List.Basic
import Mathlib.Logic.Relation
import PhpRename.Symbols.Hierarchy

/-!
# Searches along links

A search goes on in rounds until a round finds nothing new. It comes to an end if only a limited
number of names lead any further, and then it has found all that links lead to.

* `Finds`: a search that goes on for as long as it finds something, with what it ends with.
* `Finds.mem_iff`: what it ends with is what one step or more lead to.
* `finds_closure`: a search that is cut off after so many rounds has ended by itself, if there are
  fewer names that lead further.
-/

namespace PhpRename.Symbols

variable {next : String → List String} {frontier found result names : List String}
variable {start x y : String}

/-- What a round finds that has not been found before. -/
def newFrom (next : String → List String) (frontier found : List String) : List String :=
  ((frontier.flatMap next).filter (!found.contains ·)).eraseDups

theorem mem_newFrom :
    x ∈ newFrom next frontier found ↔ (∃ y ∈ frontier, x ∈ next y) ∧ x ∉ found := by
  simp [newFrom, List.mem_eraseDups]

/-- A search goes on from `frontier`, with `found` found so far, and ends with `result`. Nothing
limits the number of its rounds. -/
inductive Finds (next : String → List String) : (frontier found result : List String) → Prop
  | done {frontier found : List String} (h : newFrom next frontier found = []) :
      Finds next frontier found found
  | round {frontier found result : List String} (h : newFrom next frontier found ≠ [])
      (rest : Finds next (newFrom next frontier found) (found ++ newFrom next frontier found)
        result) : Finds next frontier found result

/-! ## What a search finds -/

/-- How far a search from `start` has come: what has been found is led to, and all that a name leads
to has been found, unless the name is next in turn. -/
structure Explored (next : String → List String) (start : String) (frontier found : List String) :
    Prop where
  sound : ∀ x ∈ found, Relation.TransGen (fun x y => y ∈ next x) start x
  front : ∀ x ∈ frontier, Relation.ReflTransGen (fun x y => y ∈ next x) start x
  closed : ∀ x, x = start ∨ x ∈ found → x ∈ frontier ∨ ∀ y ∈ next x, y ∈ found

theorem explored_start (next : String → List String) (start : String) :
    Explored next start [start] [] := by
  refine ⟨List.forall_mem_nil _, ?_, ?_⟩
  · intro x hx
    rw [List.mem_singleton.1 hx]
  · rintro x (rfl | hx)
    · exact .inl List.mem_cons_self
    · cases hx

theorem Explored.round (h : Explored next start frontier found) :
    Explored next start (newFrom next frontier found) (found ++ newFrom next frontier found) := by
  have hnew : ∀ x ∈ newFrom next frontier found,
      Relation.TransGen (fun x y => y ∈ next x) start x := by
    intro x hx
    obtain ⟨⟨y, hy, hyx⟩, -⟩ := mem_newFrom.1 hx
    exact Relation.TransGen.tail' (h.front y hy) hyx
  refine ⟨?_, fun x hx => (hnew x hx).to_reflTransGen, ?_⟩
  · intro x hx
    rcases List.mem_append.1 hx with hx | hx
    · exact h.sound x hx
    · exact hnew x hx
  · intro x hx
    by_cases hnewx : x ∈ newFrom next frontier found
    · exact .inl hnewx
    right
    intro y hy
    have hold : x = start ∨ x ∈ found :=
      hx.imp_right fun hx => (List.mem_append.1 hx).resolve_right hnewx
    by_cases hyf : y ∈ found
    · exact List.mem_append_left _ hyf
    · -- only a name that was in turn leads to something that had not been found
      have hfront : x ∈ frontier := (h.closed x hold).resolve_right fun hall => hyf (hall y hy)
      exact List.mem_append_right _ (mem_newFrom.2 ⟨⟨x, hfront, hy⟩, hyf⟩)

theorem Explored.mem_iff_of_finds (h : Explored next start frontier found)
    (hf : Finds next frontier found result) :
    x ∈ result ↔ Relation.TransGen (fun x y => y ∈ next x) start x := by
  induction hf with
  | @done frontier found hnil =>
    refine ⟨h.sound x, fun hx => ?_⟩
    have hall : ∀ x, x = start ∨ x ∈ found → ∀ y ∈ next x, y ∈ found := by
      intro x hx y hy
      rcases h.closed x hx with hfront | hall
      · -- the last round has found nothing
        by_contra hyf
        have hnew := mem_newFrom.2 ⟨⟨x, hfront, hy⟩, hyf⟩
        rw [hnil] at hnew
        cases hnew
      · exact hall y hy
    induction hx with
    | single hy => exact hall start (.inl rfl) _ hy
    | tail _ hyz ih => exact hall _ (.inr ih) _ hyz
  | round _ _ ih => exact ih h.round

/-- **A search finds what one step or more lead to**, the name it starts from included if steps lead
back there. -/
theorem Finds.mem_iff (h : Finds next [start] [] result) :
    x ∈ result ↔ Relation.TransGen (fun x y => y ∈ next x) start x :=
  (explored_start next start).mem_iff_of_finds h

/-! ## Searches come to an end -/

theorem closure_of_done (h : newFrom next frontier found = []) (rounds : Nat) :
    closure next rounds frontier found = found := by
  cases rounds with
  | zero => rfl
  | succ rounds =>
    rw [newFrom] at h
    rw [closure, h]

theorem closure_of_round (h : newFrom next frontier found ≠ []) (rounds : Nat) :
    closure next (rounds + 1) frontier found =
      closure next rounds (newFrom next frontier found)
        (found ++ newFrom next frontier found) := by
  rw [closure]
  split
  · rename_i hnil
    exact absurd hnil h
  · rfl

/-- The number of names that have not been found. -/
def missing (names found : List String) : Nat :=
  (names.filter fun x => !found.contains x).length

/-- Fewer names are missing once one of them has been found. -/
theorem missing_append_lt {new : List String} (hx : x ∈ names) (hnew : x ∈ new) (hf : x ∉ found) :
    missing names (found ++ new) < missing names found := by
  have hsub : (names.filter fun y => !(found ++ new).contains y).Sublist
      (names.filter fun y => !found.contains y) := by
    refine List.monotone_filter_right names fun y hy => ?_
    simp only [List.contains_eq_mem, List.mem_append, Bool.not_eq_true', decide_eq_false_iff_not,
      not_or] at hy ⊢
    exact hy.1
  refine Nat.lt_of_le_of_ne hsub.length_le fun heq => ?_
  have hmem : x ∈ names.filter fun y => !found.contains y := by
    simp [List.mem_filter, hx, hf]
  rw [← hsub.eq_of_length heq] at hmem
  simp [List.mem_filter, hnew] at hmem

/-- **A search comes to an end**, and all the rounds that it needs are made, if every name that a step
leads to is one of `names` or leads no further, and there are more rounds than names are missing. -/
theorem finds_closure (hnames : ∀ x, ∀ y ∈ next x, y ∈ names ∨ next y = []) {rounds : Nat}
    (hr : missing names found < rounds) :
    Finds next frontier found (closure next rounds frontier found) := by
  induction rounds generalizing frontier found with
  | zero => omega
  | succ rounds ih =>
    by_cases hnil : newFrom next frontier found = []
    · rw [closure_of_done hnil]
      exact .done hnil
    rw [closure_of_round hnil]
    refine .round hnil ?_
    by_cases hsome : ∃ x ∈ newFrom next frontier found, x ∈ names
    · obtain ⟨x, hx, hxn⟩ := hsome
      have hlt := missing_append_lt hxn hx (mem_newFrom.1 hx).2
      exact ih (by omega)
    · -- nothing that this round has found leads further, so it was the last one
      have hlast : newFrom next (newFrom next frontier found)
          (found ++ newFrom next frontier found) = [] := by
        refine List.eq_nil_iff_forall_not_mem.2 fun z hz => ?_
        obtain ⟨⟨y, hy, hyz⟩, -⟩ := mem_newFrom.1 hz
        obtain ⟨⟨x, -, hxy⟩, -⟩ := mem_newFrom.1 hy
        rcases hnames x y hxy with hyn | hy0
        · exact hsome ⟨y, hy, hyn⟩
        · rw [hy0] at hyz; cases hyz
      rw [closure_of_done hlast]
      exact .done hlast

end PhpRename.Symbols
