import Mathlib.Data.List.Basic
import PhpRename.Php.Token

/-!
# Tokens

* `isPunct_iff`, `isMemberAccess_iff`, `kind_of_isKeyword`: what is known of a token from its use.
* `literal?_eq_some`: the text of a plain string literal stands between its quotes.
* `Apart`: two tokens share no bytes.
-/

namespace PhpRename.Php.Token

variable {t : Token}

theorem isPunct_iff {m : String} : t.isPunct m = true ↔ t.kind = .punct ∧ t.text = m := by
  simp [isPunct]

theorem isMemberAccess_iff :
    t.isMemberAccess = true ↔ t.kind = .punct ∧ (t.text = "->" ∨ t.text = "?->") := by
  rw [isMemberAccess, Bool.or_eq_true, isPunct_iff, isPunct_iff, and_or_left]

theorem kind_of_isKeyword {w : String} (h : t.isKeyword w = true) : t.kind = .keyword := by
  rw [isKeyword, Bool.and_eq_true, decide_eq_true_eq] at h
  exact h.1

/-- A keyword is not a mark. -/
theorem not_isPunct_of_isKeyword {w m : String} (h : t.isKeyword w = true) :
    ¬ t.isPunct m = true := by
  rw [isPunct_iff, kind_of_isKeyword h]
  rintro ⟨hk, -⟩
  cases hk

/-- **A literal stands between its quotes.** -/
theorem literal?_eq_some {literal : String} (h : t.literal? = some literal) :
    t.kind = .string ∧ ∃ quote, (quote = '\'' ∨ quote = '"') ∧
      t.text.toList = quote :: literal.toList ++ [quote] := by
  unfold literal? at h
  split at h
  · cases h
  rename_i hkind
  refine ⟨by simpa using hkind, ?_⟩
  split at h
  swap
  · cases h
  rename_i quote rest htext
  dsimp only at h
  split at h
  · cases h
  rename_i hlast
  have hlast' : rest.getLast? = some quote := by simpa using hlast
  have hrest : rest.dropLast ++ [quote] = rest := by
    rw [List.getLast?_eq_some_iff] at hlast'
    obtain ⟨ys, rfl⟩ := hlast'
    simp
  refine ⟨quote, ?_⟩
  rw [htext]
  split at h
  · rename_i hq; cases h
    exact ⟨.inl hq, by rw [String.toList_ofList, List.cons_append, hrest]⟩
  split at h
  · rename_i hq; cases h
    simp only [Bool.and_eq_true, decide_eq_true_eq] at hq
    exact ⟨.inr hq.1.1, by rw [String.toList_ofList, List.cons_append, hrest]⟩
  · cases h

/-! ## Bytes -/

/-- The two tokens have no bytes in common. -/
def Apart (t u : Token) : Prop :=
  ∀ i, t.offset ≤ i → i < t.stop → u.offset ≤ i → u.stop ≤ i

theorem Apart.symm {t u : Token} (h : t.Apart u) : u.Apart t := by
  intro i hu hu' ht
  by_contra hlt
  have := h i ht (Nat.lt_of_not_le hlt) hu
  omega

/-- Tokens that follow one another share no bytes. -/
theorem pairwise_apart {tokens : List Token}
    (h : tokens.Pairwise fun t u => t.stop ≤ u.offset) : tokens.Pairwise Apart := by
  refine h.imp ?_
  intro t u htu i ht ht' hu
  omega

end PhpRename.Php.Token
