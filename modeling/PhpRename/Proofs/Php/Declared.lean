import PhpRename.Proofs.Php.Lowercase
import PhpRename.Proofs.Php.Orderly
import PhpRename.Proofs.Php.Region

/-!
# Names that are declared

What stands before a name tells what goals it has come to. Behind the keyword of a function, maybe
with the mark for a reference between them, a name is that of the function, or one that is imported.
And the name of a constant is read behind its keyword, a comma or a type.

* `Framed.Meets.behindKeyword`: what is to be read behind the keyword of a function.
* `Framed.Meets.behindConstant`: what is read before the name of a constant.
* `Stage.Heard.names_function`, `Stage.Heard.names_constant`: the same, for the tokens of a file.
-/

namespace PhpRename.Php

namespace Framed

variable {l l' : Lexeme} {rest rest' : List Lexeme} {f f' : Framed} {fs fs' fs'' : List Framed}
variable {role role' : Role} {frames : List Frame} {g : Goal}

/-! ## What the next goal answers -/

theorem Meets.of_take {more : List Goal} (h : Meets l rest (f :: fs) role f' fs')
    (ht : f.goal.respondAt l rest = .take role' more) :
    f' = f ∧ fs' = more.map f.child ++ fs := by
  cases h with
  | take answer =>
    rw [ht] at answer
    cases answer
    exact ⟨rfl, rfl⟩
  | become answer | opens answer =>
    rw [ht] at answer
    cases answer

theorem Meets.of_become {more : List Goal} (h : Meets l rest (f :: fs) role f' fs')
    (ht : f.goal.respondAt l rest = .become more) :
    Meets l rest (more.map f.child ++ fs) role f' fs' := by
  cases h with
  | become answer after =>
    rw [ht] at answer
    cases answer
    exact after
  | take answer | opens answer =>
    rw [ht] at answer
    cases answer

theorem Meets.ne_miss (h : Meets l rest (f :: fs) role f' fs') :
    f.goal.respondAt l rest ≠ .miss := by
  intro ht
  cases h with
  | take answer | become answer | opens answer =>
    rw [ht] at answer
    cases answer

/-- A mark that must come next is the next lexeme. -/
theorem Meets.mark {m : String} (h : Meets l rest (⟨.mark m, frames⟩ :: fs) role f fs') :
    l.isMark m = true ∧ fs' = fs := by
  cases hm : l.isMark m with
  | true =>
    have ht : Goal.respondAt (.mark m) l rest = .take .plain [] := if_pos hm
    exact ⟨rfl, (h.of_take ht).2⟩
  | false =>
    have ht : Goal.respondAt (.mark m) l rest = .miss := if_neg (by simp [Goal.atMark, hm])
    exact absurd ht h.ne_miss

/-- A mark that may come next is the next lexeme, or is left out. -/
theorem Meets.optMark {m : String} (h : Meets l rest (⟨.optMark m, frames⟩ :: fs) role f fs') :
    l.isMark m = true ∧ fs' = fs ∨ l.isMark m = false ∧ Meets l rest fs role f fs' := by
  cases hm : l.isMark m with
  | true =>
    have ht : Goal.respondAt (.optMark m) l rest = .take .plain [] := if_pos hm
    exact .inl ⟨rfl, (h.of_take ht).2⟩
  | false =>
    have ht : Goal.respondAt (.optMark m) l rest = .become [] :=
      if_neg (by simp [Goal.atMark, hm])
    exact .inr ⟨rfl, h.of_become ht⟩

/-- A word that must come next is the next lexeme. -/
theorem Meets.anyWord {r : Role} (h : Meets l rest (⟨.anyWord r, frames⟩ :: fs) role f fs') :
    l.kind = .word ∧ f = ⟨.anyWord r, frames⟩ ∧ fs' = fs := by
  by_cases hl : l.kind = .word
  · have ht : Goal.respondAt (.anyWord r) l rest = .take r [] := if_pos hl
    exact ⟨hl, h.of_take ht⟩
  · have ht : Goal.respondAt (.anyWord r) l rest = .miss := if_neg hl
    exact absurd ht h.ne_miss

/-- A word is imported where an import comes next, but no mark for a reference is. -/
theorem Meets.importPath (h : Meets l rest (⟨.importPath, frames⟩ :: fs) role f fs') :
    (l.kind = .word → f.goal = .importPath) ∧ l.isMark "&" = false := by
  refine ⟨fun hl => ?_, Bool.eq_false_iff.2 fun hl => ?_⟩
  · have ht : Goal.respondAt .importPath l rest = .take .name [.importRest] := by
      simp [Goal.respondAt, Goal.atMark_of_word hl, hl]
    rw [(h.of_take ht).1]
  · obtain ⟨hkind, htext⟩ := Lexeme.isMark_iff.1 hl
    have ht : Goal.respondAt .importPath l rest = .miss := by
      simp [Goal.respondAt, Goal.atMark, Lexeme.isMark, hkind, htext, Goal.openBrace]
    exact h.ne_miss ht

/-! ## Behind the keyword of a function -/

/-- What may be to be read behind the keyword `function`: what a function has there, an import, or
what a directive of that name is set to. -/
inductive BehindKeyword : List Framed → Prop
  | function {frames : List Frame} {fs : List Framed} (proper : Frame.isProper frames = true)
      (after : AfterKeyword frames fs) : BehindKeyword fs
  | imported {frames : List Frame} {fs : List Framed} : BehindKeyword (⟨.importPath, frames⟩ :: fs)
  | directive {frames : List Frame} {fs : List Framed} : BehindKeyword (⟨.mark "=", frames⟩ :: fs)

theorem Meets.behindKeyword (h : Meets l rest fs .keyword f fs') (ho : Orderly fs)
    (hl : l.isWord "function" = true) : BehindKeyword fs' := by
  obtain ⟨more, below, hanswer, hbelow, rfl⟩ := h.taken ho
  have hafter := Goal.keyword_function hanswer hl hbelow.placed.idle
  obtain ⟨g, frames⟩ := f
  dsimp only at hafter
  cases hafter with
  | word =>
    cases hbelow with
    | cons placed keyword => exact .function placed.proper (keyword rfl)
  | imports => exact .imported
  | directive => exact .directive

/-- The goal is for the name of a function, and its parameters come next. -/
structure NamesFunction (f : Framed) (fs' : List Framed) : Prop where
  goal : f.goal = .anyWord .name
  named : InNamed f.frames
  proper : Frame.isProper f.frames = true
  parameters : ∃ fs, fs' = ⟨.mark "(", f.frames⟩ :: fs

/-- A word right behind the keyword names the function, or is imported. -/
theorem BehindKeyword.word (hb : BehindKeyword fs) (h : Meets l rest fs role f fs')
    (hl : l.kind = .word) : f.goal = .importPath ∨ NamesFunction f fs' := by
  have hmark : ∀ m, ¬ l.isMark m = true := fun m => by simp [Lexeme.isMark_of_word hl]
  cases hb with
  | imported => exact .inl (h.importPath.1 hl)
  | directive => exact absurd h.mark.1 (hmark _)
  | function proper after =>
    cases after with
    | named hnamed fs =>
      rcases h.optMark with ⟨hm, -⟩ | ⟨-, h⟩
      · exact absurd hm (hmark _)
      · obtain ⟨-, rfl, rfl⟩ := h.anyWord
        exact .inr ⟨rfl, hnamed, proper, _, rfl⟩
    | unnamed fs =>
      rcases h.optMark with ⟨hm, -⟩ | ⟨-, h⟩
      · exact absurd hm (hmark _)
      · exact absurd h.mark.1 (hmark _)

/-- A word behind the keyword and the mark for a reference names the function. -/
theorem BehindKeyword.reference (hb : BehindKeyword fs) (h : Meets l rest fs role f fs')
    (hl : l.isMark "&" = true) (h' : Meets l' rest' fs' role' f' fs'') (hl' : l'.kind = .word) :
    NamesFunction f' fs'' := by
  have hmark : ∀ m, ¬ l'.isMark m = true := fun m => by simp [Lexeme.isMark_of_word hl']
  have htext := (Lexeme.isMark_iff.1 hl).2
  cases hb with
  | imported => exact absurd hl (by simp [h.importPath.2])
  | directive =>
    have heq := (Lexeme.isMark_iff.1 h.mark.1).2
    rw [htext] at heq
    exact absurd heq (by decide)
  | function proper after =>
    cases after with
    | named hnamed fs =>
      rcases h.optMark with ⟨-, rfl⟩ | ⟨hm, -⟩
      · obtain ⟨-, rfl, rfl⟩ := h'.anyWord
        exact ⟨rfl, hnamed, proper, _, rfl⟩
      · rw [hl] at hm; cases hm
    | unnamed fs =>
      rcases h.optMark with ⟨-, rfl⟩ | ⟨hm, -⟩
      · exact absurd h'.mark.1 (hmark _)
      · rw [hl] at hm; cases hm

/-! ## Before the name of a constant -/

/-- Where the name of a constant is met, the constants come next, or that name behind its type. -/
theorem Meets.constant (h : Meets l rest fs role f fs') (ho : Orderly fs)
    (hf : f.goal = .constant) : atConstants fs = true ∨ awaitConstant fs = true := by
  induction h with
  | take answer => exact .inr (by simp [awaitConstant, hf])
  | opens answer _ ih =>
    have hfirm := ho.opened answer
    exact absurd (ih hfirm.orderly hf) hfirm.not_waits
  | @become g fs role f fs' more answer _ ih =>
    have horder := ho.answered l rest
    have hcases := g.goal.respondAt_cases l rest
    have hfirm := fun hno => ho.answered_firm hno l rest
    have htype := fun hyes => ho.answered_ofType hyes l rest
    rw [answer] at horder hcases hfirm htype
    replace ih := ih horder hf
    cases hg : g.goal.isOfType with
    | true =>
      obtain ⟨-, hconstants, hawait⟩ := htype hg
      dsimp only [Response.goals] at hconstants hawait
      rw [hconstants, hawait] at ih
      exact .inr (by simp [awaitConstant, hg, ih.resolve_left Bool.false_ne_true])
    | false =>
      rcases hcases with hordinary | hleaves
      · exact absurd ih (hfirm hg hordinary).not_waits
      · obtain ⟨g, frames⟩ := g
        dsimp only at hleaves
        cases hleaves with
        | untyped | typed => exact .inl rfl
        | member => rcases ih with h | h <;> cases h

/-- The lexeme before the name of a constant: its keyword, a comma, or what ends a type. -/
inductive BeforeConstant (l : Lexeme) (role : Role) : Prop
  | const (taken : role = .keyword) (word : l.isWord "const" = true)
  | comma (mark : l.isMark "," = true)
  | paren (mark : l.isMark ")" = true)
  | word (kind : l.kind = .word)
      (keyword : role = .keyword → l.keyword ∈ "namespace" :: Goal.typeWords)

/-- A name that must come next takes the word. -/
theorem Meets.qualified (h : Meets l rest (⟨.qualified, frames⟩ :: fs) role f fs')
    (hl : l.kind = .word) : f.goal = .qualified := by
  have hmark := Lexeme.isMark_of_word hl
  have ht : ∃ r, Goal.respondAt .qualified l rest = .take r [.segments] := by
    simp only [Goal.respondAt, Goal.atMark, List.head?_cons, Option.any_some, hmark, hl]
    split
    · exact absurd ‹_› Bool.false_ne_true
    split
    · exact ⟨_, rfl⟩
    · exact ⟨_, rfl⟩
  obtain ⟨r, ht⟩ := ht
  rw [(h.of_take ht).1]

/-- Where a goal wants a word, the word is not the name of a constant. -/
theorem Meets.ne_constant (h : Meets l rest (⟨g, frames⟩ :: fs) role f fs')
    (hg : g.wantsWord = true) (hl : l.kind = .word) : f.goal ≠ .constant := by
  intro hf
  have hat := Goal.atMark_of_word hl rest
  cases g
  case anyWord => rw [h.anyWord.2.1] at hf; cases hf
  case qualified => rw [h.qualified hl] at hf; cases hf
  case type r =>
    by_cases hback : Goal.atMark rest "\\" = true
    · have ht : Goal.respondAt (.type r) l rest = .become [.qualified, .moreType r] := by
        simp [Goal.respondAt, hat, hl, hback]
      rw [(h.of_become ht).qualified hl] at hf
      cases hf
    · have ht : Goal.respondAt (.type r) l rest =
          .take (Goal.typeRole r l) [.moreType r] := by
        simp [Goal.respondAt, hat, hl, hback]
      rw [(h.of_take ht).1] at hf
      cases hf
  all_goals cases hg

/-- The name of a constant is a word, and its value comes next. -/
theorem Meets.taken_constant (h : Meets l rest fs role f fs') (ho : Orderly fs)
    (hf : f.goal = .constant) :
    l.kind = .word ∧ role = .name ∧ ∃ below, fs' = ⟨.mark "=", f.frames⟩ :: below := by
  obtain ⟨more, below, hanswer, -, rfl⟩ := h.taken ho
  obtain ⟨g, frames⟩ := f
  obtain rfl : g = .constant := hf
  unfold Goal.respondAt at hanswer
  dsimp only at hanswer
  split at hanswer
  · cases hanswer
    exact ⟨by assumption, rfl, _, rfl⟩
  · cases hanswer

/-- **What is read before the name of a constant.** -/
theorem Meets.behindConstant (h : Meets l rest fs role f fs') (ho : Orderly fs)
    (h' : Meets l' rest' fs' role' f' fs'') (hf : f'.goal = .constant) :
    BeforeConstant l role := by
  have horder := h.orderly ho
  have hword := (h'.taken_constant horder hf).1
  have hwaits := h'.constant horder hf
  obtain ⟨more, below, hanswer, hbelow, rfl⟩ := h.taken ho
  cases hg : f.goal.isOfType with
  | true =>
    rcases Goal.ofType_take hg hanswer with hparen | ⟨hkind, hkeyword⟩ | ⟨g, more', rfl, hwants⟩
    · exact .paren hparen
    · exact .word hkind hkeyword
    · -- the word would be read for the type, not for the constant
      exact absurd hf (h'.ne_constant hwants hword)
  | false =>
    have hcases := f.goal.respondAt_cases l rest
    have hfirm := hbelow.answered_firm hg l rest
    rw [hanswer] at hcases hfirm
    rcases hcases with hordinary | hleaves
    · exact absurd hwaits (hfirm hordinary).not_waits
    · obtain ⟨g, frames⟩ := f
      dsimp only at hleaves
      cases hleaves with
      | const hword => exact .const rfl hword
      | comma hmark => exact .comma hmark
      | block | anonymous | tag => rcases hwaits with h | h <;> cases h

end Framed

/-! ## The tokens of a file -/

namespace Reader

variable {l : Lexeme} {role : Role} {scope : Nat} {w m : String}

/-- A keyword among the tokens is a word that has been taken as one. -/
theorem isWord_of_isKeyword (h : (token l role scope).isKeyword w = true) :
    role = .keyword ∧ l.isWord (lowercase w) = true := by
  simp only [Token.isKeyword, Bool.and_eq_true, decide_eq_true_eq] at h
  obtain ⟨hkind, hnode⟩ := h
  simp only [token, classify] at hkind hnode
  cases hl : l.kind
  case word =>
    cases role <;> simp [hl] at hkind hnode
    simp only [Lexeme.keyword, hl, lowercase_lowercase] at hnode
    exact ⟨rfl, Lexeme.isWord_iff.2 ⟨hl, by simp [Lexeme.keyword, hl, hnode]⟩⟩
  case comment =>
    simp only [hl] at hkind
    split at hkind <;> cases hkind
  all_goals simp [hl] at hkind

theorem isKeyword_of_isWord (hrole : role = .keyword) (h : l.isWord w = true) :
    (token l role scope).isKeyword w = true := by
  obtain ⟨hkind, rfl⟩ := Lexeme.isWord_iff.1 h
  simp [Token.isKeyword, token, classify, hkind, hrole]

/-- The marks among the tokens are the marks. -/
theorem isPunct_iff_isMark : (token l role scope).isPunct m = true ↔ l.isMark m = true := by
  rw [Token.isPunct_iff, Lexeme.isMark_iff]
  simp only [token, classify]
  cases hl : l.kind
  case word => cases role <;> simp
  case comment => simp only; split <;> simp
  all_goals simp

/-- A name among the tokens is a word. -/
theorem word_of_name (h : (token l role scope).kind = .name) : l.kind = .word := by
  simp only [token, classify] at h
  cases hl : l.kind
  case word => rfl
  case comment =>
    simp only [hl] at h
    split at h <;> cases h
  all_goals simp [hl] at h

end Reader

namespace Stage

open Reader Framed

variable {content : List Char} {g : Stage} {l : Lexeme} {ls : List Lexeme} {f : Framed}
variable {fs' : List Framed} {fn amp t : Token} {past : List Token}

/-- Behind the keyword of a function, what it may have there is to be read. -/
theorem Reached.behindKeyword (hp : parses content = true) (h : Reached content g)
    (hcode : Site.code g.before = fn :: past) (hfn : fn.isKeyword "function" = true) :
    BehindKeyword g.stack := by
  rcases h.last hp hcode with hother | ⟨g', l, ls, f, hheard, rfl, -⟩
  · rw [Token.kind_of_isKeyword hfn] at hother
    cases hother
  · obtain ⟨hrole, hword⟩ := isWord_of_isKeyword hfn
    have hmeets := hheard.framed.meets
    rw [hrole] at hmeets
    have hlower : lowercase "function" = "function" := lowercase_eq_iff.2 (by decide)
    exact hmeets.behindKeyword (hheard.here.orderly hp) (hlower ▸ hword)

/-- **A name right behind the keyword of a function names it**, or is imported. -/
theorem Heard.names_function (hp : parses content = true) (h : Heard content g l ls f fs')
    (hl : l.kind = .word) (hcode : Site.code g.before = fn :: past)
    (hfn : fn.isKeyword "function" = true) : f.goal = .importPath ∨ NamesFunction f fs' :=
  (h.here.behindKeyword hp hcode hfn).word h.framed.meets hl

/-- **A name behind the keyword and the mark for a reference names the function.** -/
theorem Heard.names_reference (hp : parses content = true) (h : Heard content g l ls f fs')
    (hl : l.kind = .word) (hcode : Site.code g.before = amp :: fn :: past)
    (hamp : amp.isPunct "&" = true) (hfn : fn.isKeyword "function" = true) :
    NamesFunction f fs' := by
  rcases h.here.last hp hcode with hother | ⟨g', l', ls', f', hheard, rfl, hpast⟩
  · rw [(Token.isPunct_iff.1 hamp).1] at hother
    cases hother
  · have hbehind := hheard.here.behindKeyword hp hpast hfn
    exact hbehind.reference hheard.framed.meets (isPunct_iff_isMark.1 hamp) h.framed.meets hl

/-- **What stands before the name of a constant** is its keyword, or else no mark but a comma or a
closing parenthesis, and no keyword but that of a type or a namespace. -/
theorem Heard.names_constant (hp : parses content = true) (h : Heard content g l ls f fs')
    (hf : f.goal = .constant) (hcode : Site.code g.before = t :: past) :
    t.isKeyword "const" = true ∨
      (t.kind = .punct → t.text = "," ∨ t.text = ")") ∧
        (t.kind = .keyword → t.node ∈ "namespace" :: Goal.typeWords) := by
  rcases h.here.last hp hcode with hother | ⟨g', l', ls', f', hheard, rfl, -⟩
  · exact .inr ⟨fun hk => by simp [hother] at hk, fun hk => by simp [hother] at hk⟩
  have hmark {m : String} (h : l'.isMark m = true) :
      (g'.tokenOf l' ls').kind = .punct ∧ (g'.tokenOf l' ls').text = m :=
    Token.isPunct_iff.1 (isPunct_iff_isMark.2 h)
  cases hheard.framed.meets.behindConstant (hheard.here.orderly hp) h.framed.meets hf with
  | const taken word => exact .inl (isKeyword_of_isWord taken word)
  | comma mark => exact .inr ⟨fun _ => .inl (hmark mark).2, fun hk => by simp [(hmark mark).1] at hk⟩
  | paren mark => exact .inr ⟨fun _ => .inr (hmark mark).2, fun hk => by simp [(hmark mark).1] at hk⟩
  | word kind keyword =>
    refine .inr ?_
    unfold tokenOf token classify
    simp only [kind]
    cases hrole : (g'.reader.meet l' (spoken ls')).role
    case keyword => exact ⟨nofun, fun _ => keyword hrole⟩
    all_goals exact ⟨nofun, nofun⟩

/-- **Where a mark must come next, it is the next code token**, unless that is a tag or the text
between two. -/
theorem Reached.next_mark (hp : parses content = true) {m : String} {frames : List Frame}
    {fs : List Framed} {rest : List Lexeme} (h : Reached content g) (hrest : g.rest = rest)
    (hstack : g.stack = ⟨.mark m, frames⟩ :: fs) :
    ∃ t, (g.reader.run (Php.spoken rest) rest).1.find? (fun t => !t.isComment) = some t ∧
      (t.isPunct m = true ∨ t.kind = .other ∧ inCode rest = false) := by
  induction rest generalizing g with
  | nil =>
    -- the end of the file is no mark
    have hlast : lastReader content = g.reader := by rw [h.belongs.last, hrest]; rfl
    have hend : ((lastReader content).meet fileEnd []).next.sound = true := hp
    rw [hlast] at hend
    obtain ⟨f, fs', -, hframed⟩ := meet_framed (h.fits hp) hend
    rw [hstack] at hframed
    cases hframed.meets.mark.1
  | cons l ls ih =>
    obtain ⟨before, st, stack, rest⟩ := g
    obtain rfl : rest = l :: ls := hrest
    obtain rfl : stack = ⟨.mark m, frames⟩ :: fs := hstack
    by_cases hblank : l.kind = .blank
    · rw [run_blank hblank]
      obtain ⟨t, ht, hcase⟩ := ih (h.blank hblank) rfl rfl
      exact ⟨t, ht, by simpa [inCode, hblank] using hcase⟩
    cases hsilent : isSilent l with
    | true =>
      rw [run_silent hblank hsilent]
      rcases token_of_silent hblank hsilent .plain (st.silentScope (Php.spoken ls)) with
        ⟨hkind, htoken⟩ | ⟨hkind, htoken⟩
      · rw [List.find?_cons_of_pos (by simp [Token.isComment, htoken])]
        exact ⟨_, rfl, .inr ⟨htoken, by rcases hkind with hkind | hkind <;> simp [inCode, hkind]⟩⟩
      · rw [List.find?_cons_of_neg (by simp [htoken])]
        obtain ⟨t, ht, hcase⟩ := ih (h.silent hblank hsilent) rfl rfl
        exact ⟨t, ht, by simpa [inCode, hkind] using hcase⟩
    | false =>
      obtain ⟨f, fs', hheard⟩ := h.exists_heard hp rfl hsilent
      rw [run_heard hsilent, List.find?_cons_of_pos (by simp [token_of_heard hsilent])]
      exact ⟨_, rfl, .inl (isPunct_iff_isMark.2 hheard.framed.meets.mark.1)⟩

end Stage

end PhpRename.Php
