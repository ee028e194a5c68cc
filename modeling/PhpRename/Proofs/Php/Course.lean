import PhpRename.Proofs.Php.Frame
import PhpRename.Proofs.Php.Response
import PhpRename.Proofs.Php.Site

/-!
# The course of reading a file

The goals of the reader and the framed goals are met in step, and the scope that is open is always
one of the innermost class that the frames tell. Where a file meets all its goals, no goal is
dropped, so how a lexeme comes to its goal is a matter of the answers alone.

* `Framed.Meets`: how a lexeme comes to its goal when none is dropped.
* `Reader.Fits`: the goals of a reader are those that are framed.
* `Stage.Reached`: where the reading of a file comes past.
* `Stage.exists_hears`: it comes past each site of the file.
* `Stage.Reached.last`: what it has met last.
-/

namespace PhpRename.Php

/-- How the lexeme `l` meets the goal `f`, which gives it a role, when no goal is dropped on the
way. -/
inductive Framed.Meets (l : Lexeme) (rest : List Lexeme) :
    List Framed → Role → Framed → List Framed → Prop
  | take {f fs role more} (answer : f.goal.respondAt l rest = .take role more) :
      Meets l rest (f :: fs) role f (more.map f.child ++ fs)
  | become {g fs role f fs' more} (answer : g.goal.respondAt l rest = .become more)
      (after : Meets l rest (more.map g.child ++ fs) role f fs') : Meets l rest (g :: fs) role f fs'
  | opens {g fs role f fs' o inner outer} (answer : g.goal.respondAt l rest = .opens o inner outer)
      (after : Meets l rest (g.opened o inner outer ++ fs) role f fs') :
      Meets l rest (g :: fs) role f fs'

namespace Framed

@[simp] theorem child_goal (f : Framed) (g : Goal) : (f.child g).goal = g := rfl

/-- A class without a name is not known to the scopes. -/
@[simp] theorem cls?_child (f : Framed) (g : Goal) :
    Frame.cls? (f.child g).frames = Frame.cls? f.frames := by
  unfold child
  dsimp only
  split <;> rfl

end Framed

namespace Reader

/-- The scope stands in the innermost class of the frames. -/
def Stands (scopes : List Scope) (scope : Nat) (frames : List Frame) : Prop :=
  ∃ sc, scopes[scope]? = some sc ∧ sc.cls = Frame.cls? frames

/-- The goals are those that are framed, and each that asks for something does so in a scope of the
class that its frames tell. -/
inductive Fits (scopes : List Scope) : Nat → List Goal → List Framed → Prop
  | nil {scope} : Fits scopes scope [] []
  | leave {scope n m frames goals fs} (after : Fits scopes n goals fs) :
      Fits scopes scope (.leave n :: goals) (⟨.leave m, frames⟩ :: fs)
  | ask {scope g frames goals fs} (asks : g.asks = true) (stands : Stands scopes scope frames)
      (after : Fits scopes scope goals fs) : Fits scopes scope (g :: goals) (⟨g, frames⟩ :: fs)

section Fits

variable {scopes : List Scope} {scope : Nat} {frames : List Frame} {goals more : List Goal}
variable {f : Framed} {fs : List Framed} {l : Lexeme} {rest : List Lexeme}

theorem Stands.grow (h : Stands scopes scope frames) (more : List Scope) :
    Stands (scopes ++ more) scope frames := by
  obtain ⟨sc, hsc, hcls⟩ := h
  have hlt := (List.getElem?_eq_some_iff.1 hsc).1
  exact ⟨sc, by rw [List.getElem?_append_left hlt, hsc], hcls⟩

theorem Fits.grow (h : Fits scopes scope goals fs) (more : List Scope) :
    Fits (scopes ++ more) scope goals fs := by
  induction h with
  | nil => exact .nil
  | leave _ ih => exact .leave ih
  | ask asks stands _ ih => exact .ask asks (stands.grow more) ih

theorem Fits.length_eq (h : Fits scopes scope goals fs) : fs.length = goals.length := by
  induction h with
  | nil => rfl
  | leave _ ih => simp [ih]
  | ask _ _ _ ih => simp [ih]

/-- Goals that ask for something may be put in front, each framed in the class of the scope. -/
theorem Fits.append (hmore : more.all Goal.asks = true) {frame : Goal → Framed}
    (hgoal : ∀ g, (frame g).goal = g) (hstands : ∀ g, Stands scopes scope (frame g).frames)
    (h : Fits scopes scope goals fs) : Fits scopes scope (more ++ goals) (more.map frame ++ fs) := by
  induction more with
  | nil => exact h
  | cons g more ih =>
    rw [List.all_cons, Bool.and_eq_true] at hmore
    have hframe : frame g = ⟨g, (frame g).frames⟩ := congrArg (Framed.mk · (frame g).frames) (hgoal g)
    rw [List.map_cons, hframe]
    exact .ask hmore.1 (hstands g) (ih hmore.2)

theorem Fits.children (hmore : more.all Goal.asks = true) (hstands : Stands scopes scope f.frames)
    (h : Fits scopes scope goals fs) :
    Fits scopes scope (more ++ goals) (more.map f.child ++ fs) := by
  refine h.append hmore f.child_goal fun g => ?_
  obtain ⟨sc, hsc, hcls⟩ := hstands
  exact ⟨sc, hsc, by rw [hcls, f.cls?_child]⟩

/-- What opens stands in the class of its scope. -/
theorem stands_scopeOf (hstands : Stands scopes scope f.frames) (o : Opening) (offset : Nat) :
    Stands (scopes ++ [scopeOf o (scopes[scope]?.getD ⟨none, none⟩) offset]) scopes.length
      (f.frameOf o :: f.frames) := by
  obtain ⟨sc, hsc, hcls⟩ := hstands
  refine ⟨_, List.getElem?_concat_length, ?_⟩
  rw [hsc, Option.getD_some]
  cases o with
  | cls name => rfl
  | closure => exact hcls
  | function name =>
    rw [scopeOf, hcls, Framed.frameOf]
    split <;> rfl

theorem Fits.open {o : Opening} {inner after : List Goal} (hinner : inner.all Goal.asks = true)
    (hafter : after.all Goal.asks = true) (hstands : Stands scopes scope f.frames)
    (h : Fits scopes scope goals fs) (offset : Nat) :
    Fits (scopes ++ [scopeOf o (scopes[scope]?.getD ⟨none, none⟩) offset]) scopes.length
      (inner ++ .leave scope :: (after ++ goals)) (f.opened o inner after ++ fs) := by
  have hrest := (h.children hafter hstands).grow
    [scopeOf o (scopes[scope]?.getD ⟨none, none⟩) offset]
  rw [Framed.opened, List.append_assoc, List.cons_append]
  exact .append hinner (fun _ => rfl) (fun _ => stands_scopeOf hstands o offset) (.leave hrest)

end Fits

/-! ## Meeting goals in step -/

variable {st : Reader} {l : Lexeme} {rest : List Lexeme} {fs : List Framed}

/-- What has been missed stays missed. -/
theorem sound_of_settle (steps : Nat) (outer : Option Nat)
    (h : (settle l rest steps st outer).next.sound = true) : st.sound = true := by
  fun_induction settle l rest steps st outer with
  | case1 => cases h
  | case2 => cases h
  | case3 steps st outer n goals hgoals ih => exact ih h
  | case4 => exact h
  | case5 steps st outer g goals _ hgoals more hr ih => exact ih h
  | case6 steps st outer g goals _ hgoals hr ih => cases ih h
  | case7 steps st outer g goals _ hgoals opening inner after hr current ih => exact ih h

theorem sound_of_run {look ls : List Lexeme} (h : (st.run look ls).2.sound = true) :
    st.sound = true := by
  induction ls generalizing st look with
  | nil => exact h
  | cons l rest ih =>
    rw [run] at h
    split at h
    · exact ih h
    split at h
    · exact ih h
    · exact sound_of_settle _ _ (ih h)

/-- The lexeme has met the same goal in the framed goals `fs` as in the reader, in the class that its
frames tell. -/
structure Settled.Framed (m : Settled) (l : Lexeme) (rest : List Lexeme) (fs : List Framed)
    (f : Framed) (fs' : List Framed) : Prop where
  meets : Framed.Meets l rest fs m.role f fs'
  stands : Stands m.next.scopes m.scope f.frames
  fits : Fits m.next.scopes m.next.scope m.next.goals fs'

/-- **Goals and framed goals are met in step**, as long as none is dropped. -/
theorem settle_framed (steps : Nat) (outer : Option Nat)
    (hfits : Fits st.scopes st.scope st.goals fs)
    (hsound : (settle l rest steps st outer).next.sound = true) :
    ∃ f fs', Framed.settle l rest steps fs = (some f, fs') ∧
      (settle l rest steps st outer).Framed l rest fs f fs' := by
  fun_induction settle l rest steps st outer generalizing fs with
  | case1 => cases hsound
  | case2 => cases hsound
  | case3 steps st outer n goals hgoals ih =>
    rw [hgoals] at hfits
    cases hfits with
    | ask asks => cases asks
    | leave hafter =>
      obtain ⟨f, fs', hsettle, hmeets, hstands, hfits⟩ := ih hafter hsound
      exact ⟨f, fs', hsettle, .become rfl hmeets, hstands, hfits⟩
  | case4 steps st outer g goals hg hgoals role more hr =>
    rw [hgoals] at hfits
    cases hfits with
    | leave => exact absurd rfl (hg _)
    | ask _ hstands hafter =>
      have hasks : (Response.take role more).asks = true := hr ▸ Goal.respondAt_asks g l rest
      refine ⟨_, _, ?_, .take hr, hstands, hafter.children hasks hstands⟩
      rw [Framed.settle, hr]
  | case5 steps st outer g goals hg hgoals more hr ih =>
    rw [hgoals] at hfits
    cases hfits with
    | leave => exact absurd rfl (hg _)
    | @ask _ _ frames _ fs _ hstands hafter =>
      have hasks : (Response.become more).asks = true := hr ▸ Goal.respondAt_asks g l rest
      obtain ⟨f, fs', hsettle, hmeets, hstands, hfits⟩ :=
        ih (hafter.children (f := ⟨g, frames⟩) hasks hstands) hsound
      refine ⟨f, fs', ?_, .become hr hmeets, hstands, hfits⟩
      rw [Framed.settle, hr]
      exact hsettle
  | case6 steps st outer g goals hg hgoals hr ih =>
    cases sound_of_settle _ _ hsound
  | case7 steps st outer g goals hg hgoals opening inner after hr current =>
    rename_i ih
    rw [hgoals] at hfits
    cases hfits with
    | leave => exact absurd rfl (hg _)
    | @ask _ _ frames _ fs _ hstands hafter =>
      have hasks : (Response.opens opening inner after).asks = true :=
        hr ▸ Goal.respondAt_asks g l rest
      obtain ⟨hinner, houter⟩ := Bool.and_eq_true_iff.1 hasks
      obtain ⟨f, fs', hsettle, hmeets, hstands, hfits⟩ :=
        ih (hafter.open (f := ⟨g, frames⟩) hinner houter hstands l.offset) hsound
      refine ⟨f, fs', ?_, .opens hr hmeets, hstands, hfits⟩
      rw [Framed.settle, hr]
      exact hsettle

theorem meet_framed (hfits : Fits st.scopes st.scope st.goals fs)
    (hsound : (st.meet l rest).next.sound = true) :
    ∃ f fs', Framed.meet l rest fs = (some f, fs') ∧ (st.meet l rest).Framed l rest fs f fs' := by
  have hsteps : 2 * fs.length + 64 = st.steps := by rw [hfits.length_eq, steps]
  rw [Framed.meet, hsteps]
  exact settle_framed st.steps none hfits hsound

end Reader

/-! ## Between two lexemes -/

/-- Where the reading of a file has come to, between two lexemes: the tokens so far, the nearest one
first, the reader, its goals with their frames, and the lexemes to come. -/
structure Stage where
  before : List Token
  reader : Reader
  stack : List Framed
  rest : List Lexeme

namespace Stage

open Reader

/-- The reading of the file comes past here. -/
inductive Reached (content : List Char) : Stage → Prop
  | start : Reached content ⟨[], Reader.start, Framed.start, lexemes content⟩
  | blank {before st fs l ls} (here : Reached content ⟨before, st, fs, l :: ls⟩)
      (kind : l.kind = .blank) : Reached content ⟨before, st, fs, ls⟩
  | silent {before st fs l ls} (here : Reached content ⟨before, st, fs, l :: ls⟩)
      (kind : l.kind ≠ .blank) (silent : isSilent l = true) :
      Reached content ⟨token l .plain (st.silentScope (spoken ls)) :: before, st, fs, ls⟩
  | spoken {before st fs l ls} (here : Reached content ⟨before, st, fs, l :: ls⟩)
      (heard : isSilent l = false) :
      Reached content
        ⟨token l (st.meet l (spoken ls)).role (st.meet l (spoken ls)).scope :: before,
          (st.meet l (spoken ls)).next, (Framed.meet l (spoken ls) fs).2, ls⟩

variable {content : List Char} {g : Stage} {before : List Token} {st : Reader} {fs : List Framed}
variable {l : Lexeme} {ls : List Lexeme}

/-- What is left to be read belongs to the file: its lexemes, its tokens, and the goals that they
meet. -/
structure Belongs (content : List Char) (g : Stage) : Prop where
  rest : g.rest <:+ lexemes content
  tokens : (tokenize content).1 = g.before.reverse ++ (g.reader.run (spoken g.rest) g.rest).1
  last : lastReader content = (g.reader.run (spoken g.rest) g.rest).2
  places : (places content).drop g.before.length = Framed.run g.stack (spoken g.rest) g.rest
  valid : g.reader.Valid

theorem isSilent_of_blank (h : l.kind = .blank) : isSilent l = true := by
  simp [isSilent, h]

theorem ne_blank_of_heard (h : isSilent l = false) : l.kind ≠ .blank := by
  intro hblank
  rw [isSilent_of_blank hblank] at h
  cases h

/-- What says nothing to the goals is a tag, or the text between two, or a comment. -/
theorem token_of_silent (hblank : l.kind ≠ .blank) (h : isSilent l = true) (role : Role)
    (scope : Nat) :
    (l.kind = .markup ∨ l.kind = .openTag) ∧ (token l role scope).kind = .other ∨
      l.kind = .comment ∧ (token l role scope).isComment = true := by
  unfold isSilent at h
  split at h
  · exact absurd ‹_› hblank
  · rename_i hk
    refine .inr ⟨hk, ?_⟩
    simp only [token, classify, hk]
    split <;> rfl
  · rename_i hk; exact .inl ⟨.inl hk, by simp [token, classify, hk]⟩
  · rename_i hk; exact .inl ⟨.inr hk, by simp [token, classify, hk]⟩
  · cases h

/-- What says something to the goals is no comment. -/
theorem token_of_heard (h : isSilent l = false) (role : Role) (scope : Nat) :
    (token l role scope).isComment = false := by
  cases hkind : l.kind
  case comment => rw [isSilent, hkind] at h; cases h
  case word => cases role <;> simp [token, classify, hkind, Token.isComment]
  all_goals simp [token, classify, hkind, Token.isComment]

theorem run_blank (h : l.kind = .blank) (st : Reader) (ls : List Lexeme) :
    st.run (spoken (l :: ls)) (l :: ls) = st.run (spoken ls) ls := by
  rw [spoken_cons_of_silent (isSilent_of_blank h), Reader.run, if_pos h]

theorem run_silent (hkind : l.kind ≠ .blank) (h : isSilent l = true) (st : Reader)
    (ls : List Lexeme) : st.run (spoken (l :: ls)) (l :: ls) =
      (token l .plain (st.silentScope (spoken ls)) :: (st.run (spoken ls) ls).1,
        (st.run (spoken ls) ls).2) := by
  rw [spoken_cons_of_silent h, Reader.run, if_neg hkind, if_pos h]

theorem run_heard (h : isSilent l = false) (st : Reader) (ls : List Lexeme) :
    st.run (spoken (l :: ls)) (l :: ls) =
      (token l (st.meet l (spoken ls)).role (st.meet l (spoken ls)).scope ::
        ((st.meet l (spoken ls)).next.run (spoken ls) ls).1,
        ((st.meet l (spoken ls)).next.run (spoken ls) ls).2) := by
  rw [spoken_cons h, Reader.run, if_neg (ne_blank_of_heard h), if_neg (by simp [h]),
    List.tail_cons]

theorem Reached.belongs (h : Reached content g) : Belongs content g := by
  induction h with
  | start => exact ⟨List.suffix_rfl, rfl, rfl, rfl, Reader.valid_start⟩
  | @blank before st fs l ls _ kind ih =>
    obtain ⟨hrest, htokens, hlast, hplaces, hvalid⟩ := ih
    rw [run_blank kind] at htokens hlast
    rw [spoken_cons_of_silent (isSilent_of_blank kind), Framed.run, if_pos kind] at hplaces
    exact ⟨(List.suffix_cons l ls).trans hrest, htokens, hlast, hplaces, hvalid⟩
  | @silent before st fs l ls _ kind silent ih =>
    obtain ⟨hrest, htokens, hlast, hplaces, hvalid⟩ := ih
    rw [run_silent kind silent] at htokens hlast
    rw [spoken_cons_of_silent silent, Framed.run, if_neg kind, if_pos silent] at hplaces
    refine ⟨(List.suffix_cons l ls).trans hrest, ?_, hlast, ?_, hvalid⟩
    · rw [htokens, List.reverse_cons, List.append_assoc]
      rfl
    · dsimp only
      rw [List.length_cons, ← List.drop_drop, hplaces, List.drop_one, List.tail_cons]
  | @spoken before st fs l ls _ heard ih =>
    obtain ⟨hrest, htokens, hlast, hplaces, hvalid⟩ := ih
    rw [run_heard heard] at htokens hlast
    rw [spoken_cons heard, Framed.run, if_neg (ne_blank_of_heard heard), if_neg (by simp [heard]),
      List.tail_cons] at hplaces
    refine ⟨(List.suffix_cons l ls).trans hrest, ?_, hlast, ?_,
      (Reader.meet_follows hvalid l _).valid⟩
    · rw [htokens, List.reverse_cons, List.append_assoc]
      rfl
    · dsimp only
      rw [List.length_cons, ← List.drop_drop, hplaces, List.drop_one, List.tail_cons]

/-- Where a file that meets all its goals is read, none has been missed. -/
theorem Reached.sound (hp : parses content = true) (h : Reached content g) :
    g.reader.sound = true := by
  have hlast : (lastReader content).sound = true := sound_of_settle _ _ hp
  rw [h.belongs.last] at hlast
  exact sound_of_run hlast

theorem Reached.fits (hp : parses content = true) (h : Reached content g) :
    Fits g.reader.scopes g.reader.scope g.reader.goals g.stack := by
  induction h with
  | start => exact .ask rfl ⟨_, rfl, rfl⟩ .nil
  | blank _ _ ih => exact ih
  | silent _ _ _ ih => exact ih
  | spoken here heard ih =>
    obtain ⟨f, fs', hmeet, hframed⟩ := meet_framed ih ((here.spoken heard).sound hp)
    dsimp only
    rw [hmeet]
    exact hframed.fits

/-! ## Places -/

/-- The lexeme `l`, with `ls` after it, has met the goal `f`, and the goals `fs'` are left. -/
structure Heard (content : List Char) (g : Stage) (l : Lexeme) (ls : List Lexeme) (f : Framed)
    (fs' : List Framed) : Prop where
  here : Reached content g
  rest : g.rest = l :: ls
  heard : isSilent l = false
  meet : Framed.meet l (Php.spoken ls) g.stack = (some f, fs')
  framed : (g.reader.meet l (Php.spoken ls)).Framed l (Php.spoken ls) g.stack f fs'

/-- The token of the next lexeme, when it is `l`. -/
def tokenOf (g : Stage) (l : Lexeme) (ls : List Lexeme) : Token :=
  token l (g.reader.meet l (spoken ls)).role (g.reader.meet l (spoken ls)).scope

variable {f : Framed} {fs' : List Framed} {path : Path} {s : Site}

theorem Reached.exists_heard (hp : parses content = true) (h : Reached content g)
    (hrest : g.rest = l :: ls) (heard : isSilent l = false) :
    ∃ f fs', Heard content g l ls f fs' := by
  obtain ⟨before, st, fs, rest⟩ := g
  obtain rfl : rest = l :: ls := hrest
  obtain ⟨f, fs', hmeet, hframed⟩ := meet_framed (h.fits hp) ((h.spoken heard).sound hp)
  exact ⟨f, fs', h, rfl, heard, hmeet, hframed⟩

/-- The reading goes on with what is left. -/
theorem Heard.next (h : Heard content g l ls f fs') :
    Reached content
      ⟨g.tokenOf l ls :: g.before, (g.reader.meet l (spoken ls)).next, fs', ls⟩ := by
  obtain ⟨before, st, fs, rest⟩ := g
  obtain rfl : rest = l :: ls := h.rest
  have hnext := h.here.spoken h.heard
  rw [h.meet] at hnext
  exact hnext

theorem Heard.place (h : Heard content g l ls f fs') :
    (places content)[g.before.length]? = some (some f) := by
  have hplaces := h.here.belongs.places
  rw [h.rest, spoken_cons h.heard, Framed.run, if_neg (ne_blank_of_heard h.heard),
    if_neg (by simp [h.heard]), List.tail_cons, h.meet] at hplaces
  rw [← List.head?_drop, hplaces]
  rfl

/-- The class that the frames tell is that of the token's scope. -/
theorem Heard.cls (h : Heard content g l ls f fs') :
    ∃ sc, (lastReader content).scopes[(g.tokenOf l ls).scope]? = some sc ∧
      sc.cls = Frame.cls? f.frames := by
  obtain ⟨sc, hsc, hcls⟩ := h.framed.stands
  have hnext := h.next.belongs
  obtain ⟨more, hmore⟩ := (Reader.scopes_run hnext.valid (spoken ls) ls).1
  refine ⟨sc, ?_, hcls⟩
  rw [hnext.last, ← hmore]
  exact List.getElem?_append_left (List.getElem?_eq_some_iff.1 hsc).1 ▸ hsc

/-- The reading comes past each site. -/
theorem exists_reached_from {source : Source} (ls : List Lexeme) (h : Reached content g)
    (hrest : g.rest = ls)
    (hs : s ∈ Site.sitesFrom source g.before (g.reader.run (spoken ls) ls).1) :
    ∃ g' l ls, Reached content g' ∧ g'.rest = l :: ls ∧ l.kind ≠ .blank ∧ g'.before = s.before ∧
      s.token :: s.after = (g'.reader.run (spoken (l :: ls)) (l :: ls)).1 := by
  induction ls generalizing g with
  | nil => cases hs
  | cons l ls ih =>
    obtain ⟨before, st, fs, rest⟩ := g
    obtain rfl : rest = l :: ls := hrest
    by_cases hblank : l.kind = .blank
    · rw [run_blank hblank] at hs
      exact ih (h.blank hblank) rfl hs
    cases hsilent : isSilent l with
    | true =>
      rw [run_silent hblank hsilent, Site.sitesFrom] at hs
      rcases List.mem_cons.1 hs with rfl | hs
      · exact ⟨_, l, ls, h, rfl, hblank, rfl, by rw [run_silent hblank hsilent]⟩
      · exact ih (h.silent hblank hsilent) rfl hs
    | false =>
      rw [run_heard hsilent, Site.sitesFrom] at hs
      rcases List.mem_cons.1 hs with rfl | hs
      · exact ⟨_, l, ls, h, rfl, hblank, rfl, by rw [run_heard hsilent]⟩
      · exact ih (h.spoken hsilent) rfl hs

/-- The token of the site is the lexeme `l`, which has met the goal `f`. -/
structure Hears (s : Site) (content : List Char) (g : Stage) (l : Lexeme) (ls : List Lexeme)
    (f : Framed) (fs' : List Framed) : Prop where
  heard : Heard content g l ls f fs'
  before : g.before = s.before
  token : s.token = g.tokenOf l ls
  after : s.after = ((g.reader.meet l (spoken ls)).next.run (spoken ls) ls).1
  place : s.place? = some f
  /-- The class around the site is the one that the frames tell. -/
  cls : s.cls? = Frame.cls? f.frames

/-- **The reading of a file comes past each site of it.** What has met no goal there is a tag, the
text between two, or a comment. -/
theorem exists_hears {content : String} (hp : parses content.toList = true)
    (hs : s ∈ Site.all (Source.read path content)) :
    (∃ g l ls f fs', Hears s content.toList g l ls f fs') ∨
      s.place? = none ∧ (s.token.kind = .other ∨ s.token.isComment = true) := by
  obtain ⟨g, l, ls, hreached, hrest, hblank, hbefore, htokens⟩ :=
    exists_reached_from _ Reached.start rfl hs
  have hsource : s.source = Source.read path content := Site.source_of_mem_all hs
  cases hsilent : isSilent l with
  | true =>
    rw [run_silent hblank hsilent] at htokens
    refine .inr ⟨?_, ?_⟩
    · have hplaces := hreached.belongs.places
      rw [hrest, spoken_cons_of_silent hsilent, Framed.run, if_neg hblank, if_pos hsilent] at hplaces
      rw [Site.place?, hsource, Site.index, ← hbefore, ← List.head?_drop]
      exact congrArg (fun ps => ps.head?.join) hplaces
    · rw [(List.cons.inj htokens).1]
      rcases token_of_silent hblank hsilent .plain (g.reader.silentScope (spoken ls)) with
        ⟨-, hkind⟩ | ⟨-, hkind⟩
      · exact .inl hkind
      · exact .inr hkind
  | false =>
    rw [run_heard hsilent] at htokens
    obtain ⟨htoken, hafter⟩ := List.cons.inj htokens
    obtain ⟨f, fs', h⟩ := hreached.exists_heard hp hrest hsilent
    obtain ⟨sc, hsc, hcls⟩ := h.cls
    refine .inl ⟨g, l, ls, f, fs', h, hbefore, htoken, hafter, ?_, ?_⟩
    · rw [Site.place?, hsource, Site.index, ← hbefore]
      exact congrArg Option.join h.place
    · have hscope : s.scope = sc := by
        rw [Site.scope, Source.scopeOf, hsource, htoken]
        exact congrArg (·.getD ⟨none, none⟩) hsc
      rw [Site.cls?, hscope, hcls]

/-- The reading comes past each site whose token has met a goal. -/
theorem exists_hears_of_place {content : String} (hp : parses content.toList = true)
    (hs : s ∈ Site.all (Source.read path content)) (hplace : s.place? = some f) :
    ∃ g l ls fs', Hears s content.toList g l ls f fs' := by
  rcases exists_hears hp hs with ⟨g, l, ls, f', fs', hears⟩ | ⟨hno, -⟩
  · obtain rfl : f' = f := Option.some.inj (hears.place.symm.trans hplace)
    exact ⟨g, l, ls, fs', hears⟩
  · rw [hno] at hplace
    cases hplace

/-- Behind a code token the reading stands where that token has been met, unless it is a tag or the
text between two. -/
theorem Reached.last {t : Token} {past : List Token} (hp : parses content = true)
    (h : Reached content g) (hcode : Site.code g.before = t :: past) :
    t.kind = .other ∨ ∃ g' l ls f, Heard content g' l ls f g.stack ∧ t = g'.tokenOf l ls ∧
      Site.code g'.before = past := by
  induction h with
  | start => cases hcode
  | blank _ _ ih => exact ih hcode
  | @silent before st fs l ls here kind silent ih =>
    rcases token_of_silent kind silent .plain (st.silentScope (Php.spoken ls)) with
      ⟨-, hkind⟩ | ⟨-, hkind⟩
    · have hcomment : (token l .plain (st.silentScope (Php.spoken ls))).isComment = false := by
        simp [Token.isComment, hkind]
      rw [Site.code, List.filter_cons_of_pos (by simp [hcomment])] at hcode
      exact .inl ((List.cons.inj hcode).1 ▸ hkind)
    · rw [Site.code, List.filter_cons_of_neg (by simp [hkind])] at hcode
      exact ih hcode
  | @spoken before st fs l ls here heard ih =>
    rw [Site.code, List.filter_cons_of_pos (by simp [token_of_heard heard])] at hcode
    obtain ⟨htoken, hpast⟩ := List.cons.inj hcode
    obtain ⟨f, fs', hheard⟩ := here.exists_heard hp rfl heard
    refine .inr ⟨⟨before, st, fs, l :: ls⟩, l, ls, f, ?_, htoken.symm, hpast⟩
    have hleft : (Framed.meet l (Php.spoken ls) fs).2 = fs' := congrArg Prod.snd hheard.meet
    rw [hleft]
    exact hheard

end Stage

end PhpRename.Php
