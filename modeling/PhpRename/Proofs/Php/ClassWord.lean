import PhpRename.Facts.Declarations
import PhpRename.Proofs.Php.Declared

/-!
# The keywords of declarations

The words `class`, `interface` and `enum` are keywords in three places: in front of a declaration,
in a class without a name, and as what a directive sets. Only in front of a declaration does a name
come next. And no declaration begins right behind `::` or `new`.

* `Stage.Reached.usual`: what the goals of a file demand is usual.
* `Goal.keyword_class`: where the words are keywords.
* `Site.isDeclaration`: a declaration begins at a site.
* `Site.declared_eq_nil`: nothing is learnt of classes anywhere else.
* `Site.prev_of_isDeclaration`: what does not stand in front of a declaration.
-/

namespace PhpRename.Php

namespace Goal

variable {g : Goal} {l : Lexeme} {rest : List Lexeme} {role : Role} {more : List Goal} {w : String}

/-! ## What goals take -/

/-- The words for what the observer of classes looks for. -/
def declaringWords : List String :=
  ["interface", "class", "enum"]

/-- What is still to be read where the keyword of a class has been, or `new`. -/
inductive AfterClass (w : String) : Goal → List Goal → Prop
  | declaration (word : w ∈ declaringWords) : AfterClass w .classWord []
  | anonymous (word : w = "class") :
      AfterClass w .created [.optArguments, .heritage, .memberBlock, .tail]
  | new (word : w = "new") : AfterClass w .expr [.created]
  | directive : AfterClass w .directive [.mark "=", .expr]

theorem operand_keyword_class (h : operand l rest = .take .keyword more) (hkind : l.kind = .word)
    (hw : l.keyword ∈ "new" :: declaringWords) : l.keyword = "new" ∧ more = [.created] := by
  have htake := operand_take h
  have hwords : l.keyword = "new" ∨ l.keyword = "interface" ∨ l.keyword = "class" ∨
      l.keyword = "enum" := by simpa [declaringWords] using hw
  rcases hwords with hword | hword | hword | hword
  · simp [hkind, wordOperand, Lexeme.isWord, hword, prefixWords] at htake
    exact ⟨hword, htake.symm⟩
  all_goals
    simp [hkind, wordOperand, Lexeme.isWord, hword, prefixWords] at htake
    split at htake <;> cases htake

/-- **What is still to be read behind the keyword of a class**, or behind `new`. -/
theorem keyword_class (h : g.respondAt l rest = .take .keyword more) (hl : l.isWord w = true)
    (hw : w ∈ "new" :: declaringWords) (hg : g.isUsual = true) : AfterClass w g more := by
  obtain ⟨hkind, hword⟩ := Lexeme.isWord_iff.1 hl
  have hmark := Lexeme.isMark_of_word hkind
  have hwords : w = "new" ∨ w = "interface" ∨ w = "class" ∨ w = "enum" := by
    simpa [declaringWords] using hw
  cases g
  case classWord =>
    rcases hwords with rfl | rfl | rfl | rfl <;> simp [respondAt, hword] at h
    all_goals
      obtain rfl := h
      exact .declaration (by decide)
  case directive =>
    simp only [respondAt, hkind, if_true] at h
    cases h
    exact .directive
  case expr =>
    obtain ⟨hnew, rfl⟩ := operand_keyword_class h hkind (hword ▸ hw)
    exact .new (hword.symm.trans hnew)
  case statement =>
    rcases hwords with rfl | hwords
    · simp [respondAt, hkind, wordStatement, hword] at h
      split at h <;> cases h
    · have hdeclaration : respondAt .statement l rest = declaration (l :: rest) := by
        rcases hwords with rfl | rfl | rfl <;> simp [respondAt, hkind, wordStatement, hword]
      exact absurd (hdeclaration.symm.trans h) (declaration_ne_take _ _ _)
  case tail => rcases hwords with rfl | rfl | rfl | rfl <;> simp [respondAt, hkind, wordTail, hword] at h
  case type r =>
    simp only [respondAt, atMark, List.head?_cons, Option.any_some, hmark, hkind, if_true,
      Bool.false_eq_true, if_false] at h
    split at h
    · cases h
    · have hmem := typeRole_keyword (Response.take.inj h).1 hkind
      rw [hword] at hmem
      rcases hwords with rfl | rfl | rfl | rfl <;> exact absurd hmem (by decide)
  case created =>
    rcases hwords with rfl | rfl | rfl | rfl <;>
      simp [respondAt, atMark, hmark, Lexeme.isWord, hkind, hword, atName, atAnyWord] at h
    obtain rfl := h
    exact .anonymous rfl
  case word v =>
    simp only [respondAt] at h
    split at h
    · rename_i hv
      obtain rfl : v = w := (Lexeme.isWord_iff.1 hv).2.symm.trans hword
      rcases hwords with rfl | rfl | rfl | rfl <;> exact absurd hg (by decide)
    · cases h
  case members =>
    unfold respondAt at h
    simp only [atMark, List.head?_cons, Option.any_some, hmark, hkind] at h
    repeat' split at h
    all_goals cases h
  case memberCore => rcases hwords with rfl | rfl | rfl | rfl <;> simp [respondAt, hword] at h
  -- every other goal takes the words as something else, or not at all
  all_goals
    simp only [respondAt, atMark, List.head?_cons, Option.any_some, hmark, Lexeme.isWord, hkind,
      hword] at h
    repeat' split at h
  all_goals first
    | (cases h; done)
    | (rcases hwords with rfl | rfl | rfl | rfl <;> simp_all [modifierWords, isUsual])

/-! ## In front of keywords -/

/-- The goal takes any word that comes next. -/
def takesWord : Goal → Bool
  | member | anyWord _ | shell | shellIndex => true
  | _ => false

theorem takesWord_take (hg : g.takesWord = true) (hl : l.kind = .word) (rest : List Lexeme) :
    ∃ role more, g.respondAt l rest = .take role more := by
  have hmark := atMark_of_word hl rest
  cases g
  case member | anyWord | shell | shellIndex => simp [respondAt, hmark, hl]
  all_goals cases hg

/-- Behind a double colon a word is taken as a name, or as text. -/
theorem colons_take (h : g.respondAt l rest = .take role more) (hl : l.isMark "::" = true)
    (hg : g.isUsual = true) : ∃ g' more', more = g' :: more' ∧ g'.takesWord = true := by
  obtain ⟨hkind, htext⟩ := Lexeme.isMark_iff.1 hl
  obtain ⟨hmark, hword, hkeyword⟩ := Lexeme.of_isMark hl
  cases g
  case tail =>
    simp [respondAt, hkind, htext, markTail, binaryMarks] at h
    exact ⟨_, _, h.2.symm, rfl⟩
  case traitRuleList =>
    simp [respondAt, atMark, hmark, closeBrace] at h
    exact ⟨_, _, h.2.symm, rfl⟩
  case shell =>
    simp [respondAt, atMark, hmark, openBrace] at h
    exact ⟨_, _, h.2.symm, rfl⟩
  case shellIndex =>
    simp [respondAt, atMark, hmark] at h
    exact ⟨_, _, h.2.symm, rfl⟩
  case expr =>
    have htake := operand_take h
    have hlower : lowercase "::" ≠ "yield from" := mt lowercase_eq_iff.1 (by decide)
    simp [hkind, htext, markOperand, closingMarks, closeBrace, prefixMarks, hlower] at htake
  all_goals
    simp only [respondAt, atMark, List.head?_cons, Option.any_some, hmark, hword, hkind,
      hkeyword] at h
    repeat' split at h
  all_goals first
    | (cases h; done)
    | simp_all [modifierWords, isUsual, openBrace]

end Goal

/-! ## What goals demand in a file -/

namespace Framed

variable {l : Lexeme} {rest : List Lexeme} {fs fs' : List Framed} {f : Framed} {role : Role}

/-- What holds of the goals that are asked for, and of all that goals answer with, holds of the goal
that takes a lexeme and of what is left. -/
theorem Meets.forall_asked {p : Goal → Bool}
    (hp : ∀ g l rest, (Goal.respondAt g l rest).all p = true) (h : Meets l rest fs role f fs')
    (hfs : ∀ f ∈ fs, f.goal.asks = true → p f.goal = true) :
    ∃ more below, f.goal.respondAt l rest = .take role more ∧
      (f.goal.asks = true → p f.goal = true) ∧ fs' = more.map f.child ++ below ∧
      ∀ f ∈ fs', f.goal.asks = true → p f.goal = true := by
  have happend {more : List Goal} {frame : Goal → Framed} (hframe : ∀ g, (frame g).goal = g)
      (hmore : more.all p = true) {below : List Framed}
      (hbelow : ∀ f ∈ below, f.goal.asks = true → p f.goal = true) :
      ∀ f ∈ more.map frame ++ below, f.goal.asks = true → p f.goal = true := by
    intro f hf hasks
    rcases List.mem_append.1 hf with hf | hf
    · obtain ⟨g, hg, rfl⟩ := List.mem_map.1 hf
      rw [hframe]
      exact List.all_eq_true.1 hmore g hg
    · exact hbelow f hf hasks
  induction h with
  | @take f below role more answer =>
    obtain ⟨hf, hbelow⟩ := List.forall_mem_cons.1 hfs
    have hmore : more.all p = true := by simpa [answer, Response.all] using hp f.goal l rest
    exact ⟨more, below, answer, hf, rfl, happend f.child_goal hmore hbelow⟩
  | @become g below role f fs' more answer _ ih =>
    have hmore : more.all p = true := by simpa [answer, Response.all] using hp g.goal l rest
    exact ih (happend g.child_goal hmore (List.forall_mem_cons.1 hfs).2)
  | @opens g below role f fs' o inner after answer _ ih =>
    have hparts := hp g.goal l rest
    rw [answer] at hparts
    obtain ⟨hinner, hafter⟩ := Bool.and_eq_true_iff.1 hparts
    refine ih ?_
    rw [opened, List.append_assoc]
    refine happend (fun _ => rfl) hinner (List.forall_mem_cons.2 ⟨(fun h => by cases h), ?_⟩)
    exact happend g.child_goal hafter (List.forall_mem_cons.1 hfs).2

end Framed

namespace Stage

open Reader Framed

variable {content : List Char} {g : Stage} {l : Lexeme} {ls rest : List Lexeme} {f : Framed}
variable {fs' : List Framed} {t : Token} {past : List Token} {w : String}

/-- **What the goals of a file demand is usual.** -/
theorem Reached.usual (hp : parses content = true) (h : Reached content g) :
    ∀ f ∈ g.stack, f.goal.asks = true → f.goal.isUsual = true := by
  induction h with
  | start => exact List.forall_mem_singleton.2 fun _ => rfl
  | blank _ _ ih => exact ih
  | silent _ _ _ ih => exact ih
  | spoken here heard ih =>
    obtain ⟨f, fs', h⟩ := here.exists_heard hp rfl heard
    dsimp only
    rw [show (Framed.meet _ _ _).2 = fs' from congrArg Prod.snd h.meet]
    obtain ⟨more, below, -, -, -, hfs⟩ := h.framed.meets.forall_asked Goal.respondAt_usual ih
    exact hfs

/-- What a lexeme of a file is answered with. -/
theorem Heard.answer (hp : parses content = true) (h : Heard content g l ls f fs') :
    ∃ more below, f.goal.respondAt l (Php.spoken ls) =
        .take (g.reader.meet l (Php.spoken ls)).role more ∧
      f.goal.isUsual = true ∧ fs' = more.map f.child ++ below := by
  obtain ⟨more, below, hanswer, husual, hfs, -⟩ :=
    h.framed.meets.forall_asked Goal.respondAt_usual (h.here.usual hp)
  refine ⟨more, below, hanswer, husual ?_, hfs⟩
  -- a goal that takes a lexeme asks for one
  generalize f.goal = goal at hanswer ⊢
  cases goal <;> first | rfl | cases hanswer

/-- **What is to be read behind the keyword of a class**, or behind `new`. -/
theorem Heard.afterClass (hp : parses content = true) (h : Heard content g l ls f fs')
    (hw : w ∈ "new" :: Goal.declaringWords) (hk : (g.tokenOf l ls).isKeyword w = true) :
    ∃ more below, Goal.AfterClass w f.goal more ∧ fs' = more.map f.child ++ below := by
  obtain ⟨hrole, hword⟩ := isWord_of_isKeyword hk
  have hlower : ∀ w ∈ "new" :: Goal.declaringWords, lowercase w = w := by
    simp only [lowercase_eq_iff]; decide
  rw [hlower w hw] at hword
  obtain ⟨more, below, hanswer, husual, hfs⟩ := h.answer hp
  rw [hrole] at hanswer
  exact ⟨more, below, Goal.keyword_class hanswer hword hw husual, hfs⟩

/-- The code token behind a place meets the goals that are left there, unless it is a tag or the text
between two. -/
theorem Reached.next_code (hp : parses content = true) {fs : List Framed} (h : Reached content g)
    (hrest : g.rest = rest) (hstack : g.stack = fs)
    (ht : (g.reader.run (Php.spoken rest) rest).1.find? (fun t => !t.isComment) = some t) :
    t.kind = .other ∨ ∃ g' l ls f fs', Heard content g' l ls f fs' ∧ g'.stack = fs ∧
      t = g'.tokenOf l ls := by
  induction rest generalizing g with
  | nil => cases ht
  | cons l ls ih =>
    obtain ⟨before, st, stack, rest⟩ := g
    obtain rfl : rest = l :: ls := hrest
    obtain rfl : stack = fs := hstack
    by_cases hblank : l.kind = .blank
    · rw [run_blank hblank] at ht
      exact ih (h.blank hblank) rfl rfl ht
    cases hsilent : isSilent l with
    | true =>
      rw [run_silent hblank hsilent] at ht
      rcases token_of_silent hblank hsilent .plain (st.silentScope (Php.spoken ls)) with
        ⟨-, htoken⟩ | ⟨-, htoken⟩
      · rw [List.find?_cons_of_pos (by simp [Token.isComment, htoken])] at ht
        exact .inl (Option.some.inj ht ▸ htoken)
      · rw [List.find?_cons_of_neg (by simp [htoken])] at ht
        exact ih (h.silent hblank hsilent) rfl rfl ht
    | false =>
      obtain ⟨f, fs', hheard⟩ := h.exists_heard hp rfl hsilent
      rw [run_heard hsilent, List.find?_cons_of_pos (by simp [token_of_heard hsilent])] at ht
      exact .inr ⟨_, l, ls, f, fs', hheard, rfl, (Option.some.inj ht).symm⟩

end Stage

/-! ## Sites -/

namespace Framed

variable {l : Lexeme} {rest : List Lexeme} {fs fs' : List Framed} {f : Framed} {role : Role}
variable {frames : List Frame} {g : Goal}

theorem Meets.takesWord (h : Meets l rest (⟨g, frames⟩ :: fs) role f fs')
    (hg : g.takesWord = true) (hl : l.kind = .word) : f.goal = g := by
  obtain ⟨role, more, ht⟩ := Goal.takesWord_take hg hl rest
  rw [(h.of_take ht).1]

/-- A word behind `new` is taken for the class that is made. -/
theorem Meets.created (h : Meets l rest (⟨.created, frames⟩ :: fs) role f fs') (hl : l.kind = .word) :
    f.goal = .created ∨ f.goal = .qualified := by
  have hmark := Goal.atMark_of_word hl rest
  by_cases hclass : l.isWord "class" = true
  · have ht : Goal.respondAt .created l rest =
        .take .keyword [.optArguments, .heritage, .memberBlock, .tail] := by
      simp [Goal.respondAt, hmark, hclass]
    exact .inl (by rw [(h.of_take ht).1])
  by_cases hreadonly : (l.isWord "readonly" && Goal.atWord rest "class") = true
  · have ht : Goal.respondAt .created l rest = .take .keyword [.created] := by
      simp only [Goal.respondAt, hmark, Bool.false_eq_true, if_false, if_neg hclass, if_pos hreadonly]
    exact .inl (by rw [(h.of_take ht).1])
  · have ht : Goal.respondAt .created l rest = .become [.qualified, .tail] := by
      simp only [Goal.respondAt, hmark, Bool.false_eq_true, if_false, if_neg hclass,
        if_neg hreadonly]
      simp [Goal.atName, Goal.atAnyWord, hl]
    exact .inr ((h.of_become ht).qualified hl)

/-- Behind the keyword of a class without a name, a word is the keyword of a clause. -/
theorem Meets.heritage {frames' frames'' : List Frame}
    (h : Meets l rest (⟨.optArguments, frames⟩ :: ⟨.heritage, frames'⟩ :: ⟨.memberBlock, frames''⟩ :: fs)
      role f fs') (hl : l.kind = .word) : role = .keyword := by
  have hmark := Goal.atMark_of_word hl rest
  have harguments : Goal.respondAt .optArguments l rest = .become [] := by
    simp [Goal.respondAt, hmark]
  replace h := h.of_become harguments
  cases h with
  | take answer =>
    simp only [Goal.respondAt] at answer
    split at answer <;> cases answer
    rfl
  | become answer after =>
    simp only [Goal.respondAt] at answer
    split at answer <;> cases answer
    have hblock : Goal.respondAt .memberBlock l rest = .miss := by simp [Goal.respondAt, hmark]
    exact absurd hblock after.ne_miss
  | opens answer =>
    simp only [Goal.respondAt] at answer
    split at answer <;> cases answer

end Framed

namespace Site

open Reader Framed Stage

variable {s : Site} {path : Path} {content : String} {t : Token}

/-- A declaration begins at the site: a class, an interface, a trait or an enumeration. -/
def isDeclaration (s : Site) : Bool :=
  s.place?.any (·.goal = .classWord)

/-- A declaration begins with one of four keywords. -/
theorem isKeyword_of_isDeclaration (hp : parses content.toList = true)
    (hs : s ∈ all (Source.read path content)) (h : s.isDeclaration = true) :
    ∃ w ∈ ["class", "interface", "trait", "enum"], s.token.isKeyword w = true := by
  obtain ⟨f, hplace, hgoal⟩ := (Option.any_eq_true _ _).1 h
  rw [decide_eq_true_eq] at hgoal
  obtain ⟨g, l, ls, fs', hears⟩ := exists_hears_of_place hp hs hplace
  obtain ⟨more, below, hanswer, -, -⟩ := hears.heard.answer hp
  rw [hgoal, Goal.respondAt] at hanswer
  split at hanswer
  swap
  · cases hanswer
  rename_i hmem
  have hmem : l.keyword ∈ ["class", "interface", "trait", "enum"] := List.contains_iff_mem.1 hmem
  have hne : l.keyword ≠ "" := fun he => absurd (he ▸ hmem) (by decide)
  refine ⟨l.keyword, hmem, ?_⟩
  rw [hears.token]
  exact isKeyword_of_isWord (Response.take.inj hanswer).1.symm (Lexeme.isWord_of_keyword rfl hne)

/-- **No declaration begins right behind `::` or `new`.** -/
theorem prev_of_isDeclaration (hp : parses content.toList = true)
    (hs : s ∈ all (Source.read path content)) (h : s.isDeclaration = true) :
    (s.prev?.any fun t => t.isPunct "::" || t.isKeyword "new") = false := by
  obtain ⟨w, -, hw⟩ := isKeyword_of_isDeclaration hp hs h
  obtain ⟨f, hplace, hgoal⟩ := (Option.any_eq_true _ _).1 h
  rw [decide_eq_true_eq] at hgoal
  obtain ⟨g, l, ls, fs', hears⟩ := exists_hears_of_place hp hs hplace
  have hword : l.kind = .word :=
    (Lexeme.isWord_iff.1 (isWord_of_isKeyword (hears.token ▸ hw)).2).1
  rw [Bool.eq_false_iff]
  intro hany
  obtain ⟨t, hprev, ht⟩ := (Option.any_eq_true _ _).1 hany
  obtain ⟨front, hfront, rfl⟩ := Option.map_eq_some_iff.1 hprev
  have hcode : code g.before = front.token :: code front.before :=
    hears.before ▸ code_before hfront
  rw [Bool.or_eq_true] at ht
  rcases hears.heard.here.last hp hcode with hother | ⟨g', l', ls', f', hheard, htoken, -⟩
  · rcases ht with ht | ht
    · rw [(Token.isPunct_iff.1 ht).1] at hother
      cases hother
    · rw [Token.kind_of_isKeyword ht] at hother
      cases hother
  rw [htoken] at ht
  have hmeets := hears.heard.framed.meets
  rcases ht with ht | ht
  · obtain ⟨more, below, hanswer, husual, hstack⟩ := hheard.answer hp
    obtain ⟨g'', more', rfl, htakes⟩ := Goal.colons_take hanswer (isPunct_iff_isMark.1 ht) husual
    rw [hstack] at hmeets
    have hfound := hmeets.takesWord htakes hword
    rw [hgoal] at hfound
    rw [← hfound] at htakes
    cases htakes
  · obtain ⟨more, below, hafter, hstack⟩ := hheard.afterClass hp List.mem_cons_self ht
    generalize f'.goal = goal at hafter
    rw [hstack] at hmeets
    cases hafter with
    | declaration hmem => exact absurd hmem (by decide)
    | anonymous he => exact absurd he (by decide)
    | new =>
      rcases hmeets.created hword with hfound | hfound <;> rw [hgoal] at hfound <;> cases hfound
    | directive =>
      have hmark := (Lexeme.isMark_iff.1 hmeets.mark.1).1
      rw [hword] at hmark
      cases hmark

/-- What is learnt of classes at a site is that the name behind the keyword is declared. -/
theorem exists_of_mem_declared {fact : Fact} (h : fact ∈ Facts.declared s) :
    (∃ w ∈ Goal.declaringWords, s.token.isKeyword w = true) ∧
      ∃ t, s.next? = some t ∧ t.kind = .name ∧
        ∃ parent interfaces, fact = .declares t.text parent interfaces s.path := by
  rw [Facts.declared] at h
  dsimp only at h
  split at h
  · cases h
  rename_i hword
  split at h
  · cases h
  split at h
  · cases h
  rename_i next hnext
  split at h
  · cases h
  rename_i hname
  refine ⟨?_, next.token, by rw [next?, hnext]; rfl, by simpa using hname, ?_⟩
  · by_contra hno
    simp only [Goal.declaringWords, List.mem_cons, List.not_mem_nil, or_false, not_exists,
      not_and, forall_eq_or_imp, forall_eq] at hno
    simp [hno] at hword
  · split at h
    · exact ⟨_, _, List.mem_singleton.1 h⟩
    · exact ⟨_, _, List.mem_singleton.1 h⟩

/-- **Nothing is learnt of classes but where a declaration begins.** -/
theorem declared_eq_nil (hp : parses content.toList = true)
    (hs : s ∈ all (Source.read path content)) (h : s.isDeclaration = false) :
    Facts.declared s = [] := by
  by_contra hne
  obtain ⟨fact, hfact⟩ := List.exists_mem_of_ne_nil _ hne
  obtain ⟨⟨w, hw, hk⟩, t, hnext, hname, -⟩ := exists_of_mem_declared hfact
  rcases exists_hears hp hs with ⟨g, l, ls, f, fs', hears⟩ | ⟨-, hkind⟩
  swap
  · rw [Token.isComment, Token.kind_of_isKeyword hk] at hkind
    simp at hkind
  have hnext : (((g.reader.meet l (spoken ls)).next.run (spoken ls) ls).1.find?
      fun t => !t.isComment) = some t := by
    rw [← hears.after, ← next?_eq, hnext]
  -- the name behind the keyword meets what is to be read there
  rcases hears.heard.next.next_code hp rfl rfl hnext with
    hother | ⟨g', l', ls', f', fs'', hheard, hstack, htoken⟩
  · rw [hname] at hother
    cases hother
  have hl : l'.kind = .word := word_of_name (htoken ▸ hname)
  have hmeets := hheard.framed.meets
  rw [hears.token] at hk
  obtain ⟨more, below, hafter, hmore⟩ :=
    hears.heard.afterClass hp (List.mem_cons_of_mem _ hw) hk
  rw [hstack, hmore] at hmeets
  generalize hgoal : f.goal = goal at hafter
  cases hafter with
  | declaration => simp [isDeclaration, hears.place, hgoal] at h
  | anonymous =>
    have hrole := hmeets.heritage hl
    simp [htoken, tokenOf, Reader.token, Reader.classify, hl, hrole] at hname
  | new he => exact absurd hw (he ▸ by decide)
  | directive =>
    have hmark := (Lexeme.isMark_iff.1 hmeets.mark.1).1
    rw [hl] at hmark
    cases hmark

/-- A class, an interface or an enumeration of the name is declared at the site. -/
def declares (name : String) (s : Site) : Bool :=
  s.isDeclaration && !s.token.isKeyword "trait" &&
    s.next?.any fun t => t.kind = .name && t.text = name

/-- **Where a class, an interface or an enumeration is declared, that is learnt.** -/
theorem exists_declared_eq {name : String} (hp : parses content.toList = true)
    (hs : s ∈ all (Source.read path content)) (h : s.declares name = true) :
    ∃ parent interfaces, Facts.declared s = [.declares name parent interfaces s.path] := by
  simp only [declares, Bool.and_eq_true, Bool.not_eq_true'] at h
  obtain ⟨⟨hdeclaration, htrait⟩, hname⟩ := h
  obtain ⟨t, ht, hname⟩ := (Option.any_eq_true _ _).1 hname
  obtain ⟨next, hnext, rfl⟩ := Option.map_eq_some_iff.1 ht
  rw [Bool.and_eq_true, decide_eq_true_eq, decide_eq_true_eq] at hname
  obtain ⟨hkind, rfl⟩ := hname
  have hprev := prev_of_isDeclaration hp hs hdeclaration
  have hword : (s.token.isKeyword "interface" || s.token.isKeyword "class" ||
      s.token.isKeyword "enum") = true := by
    obtain ⟨w, hw, hk⟩ := isKeyword_of_isDeclaration hp hs hdeclaration
    simp only [List.mem_cons, List.not_mem_nil, or_false] at hw
    rcases hw with rfl | rfl | rfl | rfl
    · simp [hk]
    · simp [hk]
    · rw [htrait] at hk
      cases hk
    · simp [hk]
  simp only [Facts.declared, hword, hprev, hnext, hkind]
  cases s.token.isKeyword "interface" <;> exact ⟨_, _, rfl⟩

end Site

end PhpRename.Php
