import PhpRename.Proofs.Php.Heading
import PhpRename.Proofs.Php.SameCode

/-!
# Files without plain comments

The sites of a file that is rid of its plain comments are those of the other tokens, and have the same
code around them. A name of several segments is different: it is read token by token, and ends where
a comment stands. It stays what it was if no comment stands within a name.

* `Source.uncommented`: a file without its plain comments.
* `Source.WholeNames`: no plain comment of a file stands within a name.
* `Site.all_uncommented`: the sites of a file without its plain comments.
* `Site.Cleared`: a site with whole names behind it, and the same site without the plain comments.
* `Cleared.className?`, `Cleared.namesFrom`: names and lists of names are read alike at the two.
-/

namespace PhpRename.Php

/-- The token is a comment, and no doc comment. -/
def Token.isPlainComment (t : Token) : Bool :=
  t.kind = .comment

/-- The token is a segment of a name, or the mark between two of them. -/
def Token.isSegment (t : Token) : Bool :=
  t.kind = .name || t.isPunct "\\"

/-- A name may go on with the token. -/
def Token.continuesName (t : Token) : Bool :=
  t.isSegment || t.isRelativeClass

/-- The tokens without the plain comments. -/
def uncommented (tokens : List Token) : List Token :=
  tokens.filter fun t => !t.isPlainComment

/-- The file without its plain comments. The other tokens keep their offsets, lines and scopes. -/
def Source.uncommented (s : Source) : Source :=
  { s with tokens := Php.uncommented s.tokens }

/-- No plain comment stands within a name, between code that may belong to one and code that a name
may go on with. -/
def Source.WholeNames (source : Source) : Prop :=
  ∀ s ∈ Site.all source, s.token.isPlainComment = true → s.prev?.any Token.isSegment = true →
    s.next?.any Token.continuesName = false

instance (source : Source) : Decidable source.WholeNames :=
  inferInstanceAs (Decidable (∀ s ∈ Site.all source, s.token.isPlainComment = true →
    s.prev?.any Token.isSegment = true → s.next?.any Token.continuesName = false))

open Site

variable {t u : Token} {tokens : List Token}

/-! ## Tokens -/

theorem uncommented_cons_of_plain (h : t.isPlainComment = true) (tokens : List Token) :
    uncommented (t :: tokens) = uncommented tokens :=
  List.filter_cons_of_neg (by simp [h])

theorem uncommented_cons (h : t.isPlainComment = false) (tokens : List Token) :
    uncommented (t :: tokens) = t :: uncommented tokens :=
  List.filter_cons_of_pos (by simp [h])

theorem isComment_of_isPlainComment (h : t.isPlainComment = true) : t.isComment = true := by
  rw [Token.isComment, show decide (t.kind = .comment) = true from h, Bool.true_or]

theorem isPlainComment_eq_false (h : t.isComment = false) : t.isPlainComment = false :=
  Bool.eq_false_iff.2 fun hplain => by simp [isComment_of_isPlainComment hplain] at h

theorem isComment_of_isSegment (h : t.isSegment = true) : t.isComment = false := by
  rw [Token.isSegment, Bool.or_eq_true, decide_eq_true_eq, Token.isPunct_iff] at h
  rcases h with h | ⟨h, -⟩ <;> simp [Token.isComment, h]

/-- No name goes on with a comment. -/
theorem continuesName_of_isComment (h : t.isComment = true) : t.continuesName = false := by
  rw [Token.isComment, Bool.or_eq_true, decide_eq_true_eq, decide_eq_true_eq] at h
  rcases h with h | h <;>
    simp [Token.continuesName, Token.isSegment, Token.isPunct, Token.isRelativeClass, h]

/-- Code is what is left without comments of either kind. -/
theorem code_uncommented (tokens : List Token) : code (uncommented tokens) = code tokens := by
  rw [code, code, uncommented, List.filter_filter]
  refine List.filter_congr fun t _ => ?_
  cases h : t.isComment with
  | true => rfl
  | false => rw [isPlainComment_eq_false h]; rfl

theorem fromCode_uncommented (tokens : List Token) :
    fromCode (uncommented tokens) = uncommented (fromCode tokens) := by
  induction tokens with
  | nil => rfl
  | cons t tokens ih =>
    cases hc : t.isComment with
    | false =>
      have hstays : ∀ tokens, fromCode (t :: tokens) = t :: tokens := fun tokens =>
        List.dropWhile_cons_of_neg (by simp [hc])
      rw [hstays, uncommented_cons (isPlainComment_eq_false hc), hstays]
    | true =>
      have hskip : ∀ tokens, fromCode (t :: tokens) = fromCode tokens := fun tokens =>
        List.dropWhile_cons_of_pos hc
      rw [hskip, ← ih]
      cases hplain : t.isPlainComment with
      | true => rw [uncommented_cons_of_plain hplain]
      | false => rw [uncommented_cons hplain, hskip]

/-- The first of the other tokens is code, and then the first code of all, or it is a doc comment. -/
theorem head_uncommented (h : (uncommented tokens).head? = some u) :
    u ∈ (code tokens).head? ∨ u.isComment = true := by
  cases hc : u.isComment with
  | true => exact .inr rfl
  | false =>
    refine .inl ?_
    obtain ⟨rest, hrest⟩ := List.head?_eq_some_iff.1 h
    rw [← code_uncommented, hrest, code, List.filter_cons_of_pos (by simp [hc])]
    rfl

/-! ## Sites -/

namespace Site

variable {s t : Site} {source : Source} {n m : ℕ}

/-- The site without the plain comments around it. -/
def uncommented (s : Site) : Site :=
  ⟨s.source.uncommented, Php.uncommented s.before, s.token, Php.uncommented s.after⟩

theorem sitesFrom_uncommented (source : Source) (before after : List Token) :
    sitesFrom source.uncommented (Php.uncommented before) (Php.uncommented after) =
      ((sitesFrom source before after).filter fun s => !s.token.isPlainComment).map uncommented := by
  induction after generalizing before with
  | nil => rfl
  | cons t after ih =>
    have ih := ih (t :: before)
    rw [sitesFrom]
    cases hplain : t.isPlainComment with
    | true =>
      rw [uncommented_cons_of_plain hplain] at ih ⊢
      rw [ih, List.filter_cons_of_neg (by simp [hplain])]
    | false =>
      rw [uncommented_cons hplain] at ih ⊢
      rw [sitesFrom, ih, List.filter_cons_of_pos (by simp [hplain])]
      rfl

/-- **The sites of a file without its plain comments.** -/
theorem all_uncommented (source : Source) : all source.uncommented =
    ((all source).filter fun s => !s.token.isPlainComment).map uncommented :=
  sitesFrom_uncommented source [] source.tokens

/-- **The same code stands around a site** with plain comments and without them. -/
theorem sameCode_uncommented (s : Site) : SameCode s s.uncommented :=
  ⟨rfl, (code_uncommented s.before).symm, (code_uncommented s.after).symm, rfl, rfl⟩

end Site

/-! ## Names -/

/-- Where a plain comment stands behind a part of a name, the name does not go on behind it. -/
def Whole (tokens : List Token) : Prop :=
  ∀ pre l c post, tokens = pre ++ l :: c :: post → l.isSegment = true → c.isPlainComment = true →
    ∀ r ∈ (code post).head?, r.continuesName = false

theorem Whole.of_suffix {more : List Token} (h : Whole tokens) (hs : more <:+ tokens) : Whole more := by
  obtain ⟨front, rfl⟩ := hs
  rintro pre l c post rfl
  exact h (front ++ pre) l c post (List.append_assoc ..).symm

theorem Source.WholeNames.whole {source : Source} {s : Site} (h : source.WholeNames)
    (hs : s ∈ Site.all source) : Whole (s.token :: s.after) := by
  intro pre l c post hsplit hl hc r hr
  -- the comment as a site of the file: the code before it is the part of the name
  let comment : Site := ⟨source, l :: (s.before.reverse ++ pre).reverse, c, post⟩
  have hmem : comment ∈ Site.all source := by
    refine Site.mem_all_iff.2 ⟨rfl, ?_⟩
    rw [Site.tokens_eq hs, hsplit, List.reverse_cons, List.reverse_reverse]
    simp only [List.append_assoc, List.singleton_append]
    rfl
  have hprev : comment.prev? = some l := by
    rw [Site.prev?_eq_head?, code, List.filter_cons_of_pos (by simp [isComment_of_isSegment hl])]
    rfl
  have hnext : comment.next? = some r := (Site.next?_eq_head? comment).trans hr
  have hends := h comment hmem hc (by rw [hprev]; exact hl)
  rwa [hnext] at hends

/-- A name ends where it does not go on. -/
theorem nameRun_of_ends (name : Option String) (h : ∀ t ∈ tokens.head?, t.continuesName = false) :
    nameRun name tokens = (name, 0) := by
  cases tokens with
  | nil => rfl
  | cons t tokens =>
    have ht := h t rfl
    simp only [Token.continuesName, Token.isSegment, Bool.or_eq_false_iff, decide_eq_false_iff_not] at ht
    simp [nameRun, ht.1.1, ht.1.2, ht.2]

/-- **A whole name has no plain comment in it**, and is the same without plain comments around it. -/
theorem nameRun_uncommented (h : Whole tokens) (hfront : ∀ t ∈ tokens.head?, t.isPlainComment = false)
    (name : Option String) : nameRun name (uncommented tokens) = nameRun name tokens ∧
      ∀ t ∈ tokens.take (nameRun name tokens).2, t.isPlainComment = false := by
  induction tokens generalizing name with
  | nil => exact ⟨rfl, fun _ h => by simp at h⟩
  | cons t rest ih =>
    have ht := hfront t rfl
    rw [uncommented_cons ht]
    -- behind a part of the name it goes on with the next token, or ends at a comment
    have hgoes : t.isSegment = true → ∀ name, nameRun name (uncommented rest) = nameRun name rest ∧
        ∀ u ∈ rest.take (nameRun name rest).2, u.isPlainComment = false := by
      intro hsegment name
      by_cases hnext : ∀ u ∈ rest.head?, u.isPlainComment = false
      · exact ih (h.of_suffix (List.suffix_cons t rest)) hnext name
      push Not at hnext
      obtain ⟨c, hc, hplain⟩ := hnext
      obtain ⟨post, rfl⟩ := List.head?_eq_some_iff.1 hc
      have hplain : c.isPlainComment = true := by simpa using hplain
      have hends := h [] t c post rfl hsegment hplain
      have hrun : nameRun name (c :: post) = (name, 0) := by
        refine nameRun_of_ends name fun u hu => ?_
        cases hu
        exact continuesName_of_isComment (isComment_of_isPlainComment hplain)
      refine ⟨?_, by simp [hrun]⟩
      rw [uncommented_cons_of_plain hplain, hrun]
      refine nameRun_of_ends name fun u hu => ?_
      rcases head_uncommented hu with hcode | hcomment
      · exact hends u hcode
      · exact continuesName_of_isComment hcomment
    have htake : ∀ {n : ℕ}, (∀ u ∈ rest.take n, u.isPlainComment = false) →
        ∀ u ∈ (t :: rest).take (n + 1), u.isPlainComment = false := by
      intro n hrest
      rw [List.take_succ_cons]
      exact List.forall_mem_cons.2 ⟨ht, hrest⟩
    rw [nameRun, nameRun]
    split
    · rename_i hname
      obtain ⟨hrun, hplain⟩ := hgoes (by simp [Token.isSegment, hname]) (some t.text)
      exact ⟨by rw [hrun], htake hplain⟩
    split
    · exact ⟨rfl, htake (n := 0) (by simp)⟩
    split
    · rename_i hmark
      obtain ⟨hrun, hplain⟩ := hgoes (by simp [Token.isSegment, hmark]) name
      exact ⟨by rw [hrun], htake hplain⟩
    · exact ⟨rfl, by simp⟩

/-! ## Sites where names are read -/

/-- The second site is the first one without the plain comments behind it. It is no plain comment, and
names from there on are whole. -/
structure Site.Cleared (s t : Site) : Prop extends SameCode s t where
  after_eq : t.after = Php.uncommented s.after
  plain : s.token.isPlainComment = false
  whole : Whole (s.token :: s.after)

namespace Site

open Facts

variable {s t : Site} {s? t? : Option Site} {source : Source} {n m : ℕ}

theorem cleared_uncommented (h : source.WholeNames) (hs : s ∈ all source)
    (hplain : s.token.isPlainComment = false) : Cleared s s.uncommented :=
  ⟨sameCode_uncommented s, rfl, hplain, h.whole hs⟩

theorem length_tokensFrom_nextCode? (s : Site) : (tokensFrom s.nextCode?).length ≤ s.after.length := by
  rw [tokensFrom_nextCode?]
  exact length_fromCode_le s.after

theorem length_after_nextCode? {next : Site} (h : s.nextCode? = some next) :
    next.after.length < s.after.length := by
  have hlength := length_fromCode_le s.after
  rw [← tokensFrom_nextCode?, h] at hlength
  exact hlength

namespace Cleared

/-- **The nearest code behind the sites** is at such sites again. -/
theorem nextCode? (h : Cleared s t) : Option.Rel Cleared s.nextCode? t.nextCode? := by
  rcases rel_cases h.toSameCode.nextCode? with ⟨hs, ht⟩ | ⟨next, next', hs, ht, hsame⟩
  · rw [hs, ht]
    exact .none
  have hfrom := tokensFrom_nextCode? s
  have hfrom' := tokensFrom_nextCode? t
  rw [h.after_eq, fromCode_uncommented, ← hfrom, hs, ht] at hfrom'
  rw [hs] at hfrom
  have hmem : next.token ∈ code s.after := (code_nextCode? hs).1 ▸ List.mem_cons_self
  have hplain : next.token.isPlainComment = false :=
    isPlainComment_eq_false (by simpa using (List.mem_filter.1 hmem).2)
  have hsuffix : next.token :: next.after <:+ s.after := by
    rw [show next.token :: next.after = fromCode s.after from hfrom]
    exact List.dropWhile_suffix _
  rw [tokensFrom, tokensFrom, uncommented_cons hplain] at hfrom'
  rw [hs, ht]
  exact .some ⟨hsame, (List.cons.inj hfrom').2, hplain,
    h.whole.of_suffix (hsuffix.trans (List.suffix_cons ..))⟩

/-- The sites some tokens further on are such sites again, if no plain comment is passed. -/
theorem advance (h : Cleared s t) (hpassed : ∀ u ∈ s.after.take n, u.isPlainComment = false) :
    Cleared (s.advance n) (t.advance n) := by
  induction n generalizing s t with
  | zero => exact h
  | succ n ih =>
    have hafter := h.after_eq
    cases hs : s.after with
    | nil =>
      rw [hs] at hafter
      rw [Site.advance, Site.advance, hs, hafter]
      exact h
    | cons u after =>
      rw [hs, List.take_succ_cons, List.forall_mem_cons] at hpassed
      rw [hs, uncommented_cons hpassed.1] at hafter
      rw [Site.advance, Site.advance, hs, hafter]
      refine ih ⟨⟨rfl, SameCode.code_cons h.token h.before, ?_, h.path, h.scopes⟩, rfl, hpassed.1, ?_⟩
        hpassed.2
      · exact (code_uncommented after).symm
      · have hwhole := h.whole
        rw [hs] at hwhole
        exact hwhole.of_suffix (List.suffix_cons ..)

/-- **A name is read alike at the sites**, and ends at such sites again. -/
theorem className? (h : Cleared s t) : Option.Rel (fun p q => p.1 = q.1 ∧ Cleared p.2 q.2)
    s.className? t.className? := by
  obtain ⟨hrun, hplain⟩ := nameRun_uncommented h.whole (fun u hu => by cases hu; exact h.plain) none
  rw [uncommented_cons h.plain, h.token, ← h.after_eq] at hrun
  rw [Site.className?, Site.className?, hrun, ← h.token]
  generalize nameRun none (s.token :: s.after) = run at hplain
  obtain ⟨name?, k⟩ := run
  cases name? with
  | none => exact .none
  | some name =>
    refine .some ⟨rfl, h.advance ?_⟩
    cases k with
    | zero => simp
    | succ k => exact fun u hu => hplain u (by rw [List.take_succ_cons]; exact List.mem_cons_of_mem _ hu)

theorem length_after_className? {name : String} {last : Site}
    (h : s.className? = some (name, last)) : last.after.length ≤ s.after.length := by
  rw [Site.className?] at h
  split at h
  · cases h
    rw [after_advance]
    exact List.length_drop ▸ Nat.sub_le _ _
  · cases h

/-- **A list of names is read alike at the sites**, with steps enough to get to its end. -/
theorem namesFrom (h : Option.Rel Cleared s? t?) (hn : (tokensFrom s?).length ≤ n)
    (hm : (tokensFrom t?).length ≤ m) :
    (Facts.namesFrom n s?).1 = (Facts.namesFrom m t?).1 ∧
      Option.Rel Cleared (Facts.namesFrom n s?).2 (Facts.namesFrom m t?).2 := by
  induction n generalizing m s? t? with
  | zero =>
    rcases rel_cases h with ⟨rfl, rfl⟩ | ⟨s, t, rfl, rfl, -⟩
    · cases m <;> exact ⟨rfl, .none⟩
    · cases hn
  | succ n ih =>
    rcases rel_cases h with ⟨rfl, rfl⟩ | ⟨s, t, rfl, rfl, hst⟩
    · cases m <;> exact ⟨rfl, .none⟩
    obtain ⟨m, rfl⟩ : ∃ k, m = k + 1 := ⟨m - 1, by rw [tokensFrom, List.length_cons] at hm; omega⟩
    rw [tokensFrom, List.length_cons] at hn hm
    rw [Facts.namesFrom, Facts.namesFrom]
    rcases rel_cases hst.className? with ⟨hs, ht⟩ | ⟨⟨name, last⟩, ⟨name', last'⟩, hs, ht, rfl, hlast⟩
    · rw [hs, ht]
      exact ⟨rfl, .some hst⟩
    dsimp only at hs ht hlast
    have hle := length_after_className? hs
    have hle' := length_after_className? ht
    rw [hs, ht]
    dsimp only
    rcases rel_cases hlast.nextCode? with ⟨hs, ht⟩ | ⟨next, next', hs, ht, hnext⟩
    · rw [hs, ht]
      exact ⟨rfl, .none⟩
    have hlt := length_after_nextCode? hs
    have hlt' := length_after_nextCode? ht
    rw [hs, ht]
    dsimp only
    rw [← hnext.token]
    split
    · have hmore := ih (m := m) hnext.nextCode?
        ((length_tokensFrom_nextCode? next).trans (by omega))
        ((length_tokensFrom_nextCode? next').trans (by omega))
      exact ⟨congrArg (name :: ·) hmore.1, hmore.2⟩
    · exact ⟨rfl, .some hnext⟩

end Cleared

end Site

end PhpRename.Php
