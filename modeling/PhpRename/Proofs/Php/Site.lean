import Mathlib.Data.List.Pairwise
import PhpRename.Php.Include
import PhpRename.Proofs.Php.Token
import PhpRename.Proofs.Text.Lines
import PhpRename.Proofs.Text.Occurrence

/-!
# Sites of a file that is cut into tokens

* `Source.Tokenized`: the tokens of a file are pieces of its content, on the lines they say.
* `Source.Proper`: the tokens of a file share no bytes, and functions have parameters.
* `Site.mem_all_iff`: a site of a file is its token list, taken apart.
* `Site.exists_prevCode?`, `Site.next?_eq_head?`: the neighbours of a site, as tokens.
* `Site.eq_or_apart`: two sites of a file are one, or their tokens share no bytes.
* `Site.target?_eq_some`: the target of an include is the literal of its site.
-/

namespace PhpRename.Php

open Text

/-- Each token stands in the content where it says it does, and on the line of its offset. -/
structure Source.Tokenized (s : Source) : Prop where
  starts : s.starts = lineStarts s.content.toList
  text : ∀ t ∈ s.tokens, StandsAt s.content.toList t.text.toList t.offset t.stop
  line : ∀ t ∈ s.tokens, t.line = s.lineOf t.offset

/-- Lines are one more than the newlines before them. -/
theorem Source.Tokenized.lineOf_eq {s : Source} (h : s.Tokenized) {n : Nat}
    (hn : isBoundary s.content.toList n = true) :
    s.lineOf n = (upTo s.content.toList n).count '\n' + 1 := by
  rw [Source.lineOf, h.starts, lineOf_lineStarts hn]

/-- The tokens share no bytes, and where a function is declared that returns a reference, its
parameters follow its name. -/
structure Source.Proper (s : Source) : Prop where
  apart : s.tokens.Pairwise Token.Apart
  called : ∀ site ∈ Site.all s, ∀ amp declarer, site.token.kind = .name →
    site.prevCode? = some amp → amp.token.isPunct "&" = true →
    amp.prevCode? = some declarer → declarer.token.isKeyword "function" = true →
    site.isCalled = true

namespace Site

variable {source : Source} {s : Site}

theorem mem_sitesFrom {before after : List Token} (h : s ∈ sitesFrom source before after) :
    s.source = source ∧ before.reverse ++ after = s.before.reverse ++ s.token :: s.after := by
  induction after generalizing before with
  | nil => cases h
  | cons t after ih =>
    rcases List.mem_cons.1 h with rfl | h
    · exact ⟨rfl, rfl⟩
    · obtain ⟨hs, he⟩ := ih h
      exact ⟨hs, by rw [← he, List.reverse_cons, List.append_assoc]; rfl⟩

theorem source_of_mem_all (h : s ∈ all source) : s.source = source :=
  (mem_sitesFrom h).1

theorem tokens_eq (h : s ∈ all source) : source.tokens = s.before.reverse ++ s.token :: s.after :=
  (mem_sitesFrom h).2

theorem token_mem (h : s ∈ all source) : s.token ∈ source.tokens := by
  rw [tokens_eq h]; simp

theorem mem_sitesFrom_of_eq {before after : List Token} (hsource : s.source = source)
    (h : before.reverse ++ after = s.before.reverse ++ s.token :: s.after)
    (hlength : before.length ≤ s.before.length) : s ∈ sitesFrom source before after := by
  induction after generalizing before with
  | nil =>
    have hlengths := congrArg List.length h
    simp only [List.length_append, List.length_reverse, List.length_cons, List.length_nil] at hlengths
    omega
  | cons t after ih =>
    rcases Nat.eq_or_lt_of_le hlength with he | hlt
    · have hreverse : before.reverse.length = s.before.reverse.length := by simp [he]
      obtain ⟨hbefore, hafter⟩ := List.append_inj h hreverse
      obtain ⟨rfl, rfl⟩ := List.cons.inj hafter
      obtain rfl := List.reverse_injective hbefore
      subst hsource
      exact List.mem_cons_self
    · refine List.mem_cons_of_mem _ (ih ?_ hlt)
      rw [List.reverse_cons, List.append_assoc]
      exact h

/-- The sites of a file are all the ways to take its token list apart. -/
theorem mem_all_iff :
    s ∈ all source ↔ s.source = source ∧ source.tokens = s.before.reverse ++ s.token :: s.after :=
  ⟨fun h => ⟨source_of_mem_all h, tokens_eq h⟩,
    fun h => mem_sitesFrom_of_eq h.1 h.2 (Nat.zero_le _)⟩

theorem nextCode?_mem_all {next : Site} (hs : s ∈ all source) (h : s.nextCode? = some next) :
    next ∈ all source := by
  have hwalk : ∀ after before, codeAfter s.source before after = some next →
      next.source = s.source ∧
        before.reverse ++ after = next.before.reverse ++ next.token :: next.after := by
    intro after
    induction after with
    | nil => intro before h; cases h
    | cons t after ih =>
      intro before h
      rw [codeAfter] at h
      split at h
      · obtain ⟨hsource, he⟩ := ih _ h
        exact ⟨hsource, by rw [← he, List.reverse_cons, List.append_assoc]; rfl⟩
      · cases h
        exact ⟨rfl, rfl⟩
  obtain ⟨hsource, htokens⟩ := mem_all_iff.1 hs
  obtain ⟨hnext, he⟩ := hwalk s.after (s.token :: s.before) h
  refine mem_all_iff.2 ⟨hnext.trans hsource, ?_⟩
  rw [htokens, ← he, List.reverse_cons, List.append_assoc]
  rfl

theorem advance_mem_all (n : Nat) (hs : s ∈ all source) : s.advance n ∈ all source := by
  induction n generalizing s with
  | zero => exact hs
  | succ n ih =>
    rw [advance]
    split
    · exact hs
    · rename_i t after hafter
      obtain ⟨hsource, htokens⟩ := mem_all_iff.1 hs
      refine ih (mem_all_iff.2 ⟨hsource, ?_⟩)
      rw [htokens, hafter, List.reverse_cons, List.append_assoc]
      rfl

theorem map_token_sitesFrom (before after : List Token) :
    (sitesFrom source before after).map (·.token) = after := by
  induction after generalizing before with
  | nil => rfl
  | cons t after ih => rw [sitesFrom, List.map_cons, ih]

theorem map_token_all (source : Source) : (all source).map (·.token) = source.tokens :=
  map_token_sitesFrom [] source.tokens

/-- **Two sites of a file are one**, or their tokens share no bytes, as no two tokens of it do. -/
theorem eq_or_apart (hp : source.tokens.Pairwise Token.Apart) {t : Site} (hs : s ∈ all source)
    (ht : t ∈ all source) : s = t ∨ s.token.Apart t.token := by
  have hpair : (all source).Pairwise fun s t => s.token.Apart t.token := by
    rw [← List.pairwise_map, map_token_all]
    exact hp
  have hsymm : Std.Symm fun s t : Site => s.token.Apart t.token := ⟨fun _ _ h => h.symm⟩
  by_cases he : s = t
  · exact .inl he
  · exact .inr (hpair.forall hs ht he)

/-- The nearest code before a site is the first of the code tokens before it. -/
theorem code_before {front : Site} (h : s.prevCode? = some front) :
    code s.before = front.token :: code front.before := by
  have hwalk : ∀ before after, codeBefore s.source after before = some front →
      code before = front.token :: code front.before := by
    intro before
    induction before with
    | nil => intro after h; cases h
    | cons t before ih =>
      intro after h
      rw [codeBefore] at h
      split at h
      · rename_i hc
        rw [code, List.filter_cons_of_neg (by simpa using hc)]
        exact ih _ h
      · rename_i hc
        cases h
        rw [code, List.filter_cons_of_pos (by simpa using hc)]
        rfl
  exact hwalk s.before _ h

/-- Where no code stands before a site, there are only comments. -/
theorem code_eq_nil (h : s.prevCode? = none) : code s.before = [] := by
  have hwalk : ∀ before after, codeBefore s.source after before = none → code before = [] := by
    intro before
    induction before with
    | nil => exact fun _ _ => rfl
    | cons t before ih =>
      intro after h
      rw [codeBefore] at h
      split at h
      · rename_i hc
        rw [code, List.filter_cons_of_neg (by simpa using hc)]
        exact ih _ h
      · cases h
  exact hwalk s.before _ h

/-- The nearest code token before a site is the first of the code tokens before it. -/
theorem prev?_eq_head? (s : Site) : s.prev? = (code s.before).head? := by
  cases hfront : s.prevCode? with
  | none => rw [prev?, hfront, code_eq_nil hfront]; rfl
  | some front => rw [prev?, hfront, code_before hfront]; rfl

/-- The first of the code tokens before a site is that of the nearest code. -/
theorem exists_prevCode? {t : Token} {past : List Token} (h : code s.before = t :: past) :
    ∃ front, s.prevCode? = some front ∧ front.token = t ∧ code front.before = past := by
  cases hfront : s.prevCode? with
  | none =>
    rw [code_eq_nil hfront] at h
    cases h
  | some front =>
    have hcode := code_before hfront
    rw [h] at hcode
    obtain ⟨rfl, rfl⟩ := List.cons.inj hcode
    exact ⟨front, rfl, rfl, rfl⟩

theorem next?_eq (s : Site) : s.next? = s.after.find? fun t => !t.isComment := by
  have hwalk : ∀ before after, (codeAfter s.source before after).map (·.token) =
      after.find? fun t => !t.isComment := by
    intro before after
    induction after generalizing before with
    | nil => rfl
    | cons t after ih =>
      rw [codeAfter]
      cases hc : t.isComment with
      | true => rw [if_pos rfl, List.find?_cons_of_neg (by simp [hc])]; exact ih _
      | false => rw [if_neg Bool.false_ne_true, List.find?_cons_of_pos (by simp [hc])]; rfl
  exact hwalk _ _

/-- The nearest code token after a site is the first of the code tokens after it. -/
theorem next?_eq_head? (s : Site) : s.next? = (code s.after).head? := by
  rw [next?_eq, code, List.head?_filter]

end Site

/-- A target is the literal of its site, and begins behind the quote. -/
theorem Site.target?_eq_some {s : Site} {t : Target} (h : s.target? = some t) :
    s.token.literal? = some t.literal ∧ t.offset = s.token.offset + 1 := by
  unfold target? at h
  simp only [Option.bind_eq_bind, Option.bind_eq_some_iff] at h
  obtain ⟨literal, hlit, ⟨start, fromDir⟩, -, front, -, h⟩ := h
  -- the same end is reached with and without parentheses
  have hend : ∀ keyword : Site, (if includeWords.any keyword.token.isKeyword &&
      s.endsArgument (front.token.isPunct "(") then
        some (⟨literal, s.token.offset + 1, fromDir⟩ : Target) else none) = some t →
      s.token.literal? = some t.literal ∧ t.offset = s.token.offset + 1 := by
    intro keyword hk
    split at hk
    · cases hk; exact ⟨hlit, rfl⟩
    · cases hk
  split at h
  · obtain ⟨keyword, -, h⟩ := Option.bind_eq_some_iff.1 h
    exact hend keyword h
  · exact hend front h

end PhpRename.Php
