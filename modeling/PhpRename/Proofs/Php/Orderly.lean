import PhpRename.Proofs.Php.Course

/-!
# The order of framed goals

What a goal may rely on is what it was asked for with: the names of constants stand right behind
their types, the name of a function right behind the keyword, and the members of a class right in
its frame. This order is kept by all that goals answer, so it holds wherever the reading of a file
comes past.

* `Framed.Placed`: a goal stands in frames that it may stand in.
* `Orderly`: goals rely on the ones below them.
* `Orderly.answered`, `Orderly.opened`: the order is kept.
* `Stage.Reached.orderly`: so it holds throughout a file.
-/

namespace PhpRename.Php

/-- A method is a member of a class, with a name or without. -/
def Frame.isProper : List Frame → Bool
  | .method :: outer => isBody outer
  | _ => true

/-- The goal may stand anywhere in these frames. -/
def Goal.mayStand (frames : List Frame) : Goal → Bool
  | .members | .memberBlock => Frame.isBody frames
  | .constants | .constant => false
  | .word w => w ≠ "function"
  | g => !g.isIdle

namespace Framed

/-- The goal is one that some goal leaves, and the members of a class stand in a class. -/
structure Placed (f : Framed) : Prop where
  idle : f.goal.isIdle = false
  body : f.goal = .members ∨ f.goal = .memberBlock → Frame.isBody f.frames = true
  proper : Frame.isProper f.frames = true

/-- Below goals that a type stands for, the name of a constant is still to be read. -/
def awaitConstant : List Framed → Bool
  | [] => false
  | f :: fs => f.goal = .constant || f.goal.isOfType && awaitConstant fs

/-- The constants of a declaration are to be read next. -/
def atConstants : List Framed → Bool
  | [] => false
  | f :: _ => f.goal = .constants

/-- The frames are those of a function with a name. -/
inductive InNamed : List Frame → Prop
  | method (outer : List Frame) : InNamed (.method :: outer)
  | function (outer : List Frame) : InNamed (.function :: outer)

/-- What is to be read behind the keyword of a function with these frames: its name and its
parameters, or its parameters. -/
inductive AfterKeyword (frames : List Frame) : List Framed → Prop
  | named (named : InNamed frames) (fs : List Framed) : AfterKeyword frames
      (⟨.optMark "&", frames⟩ :: ⟨.anyWord .name, frames⟩ :: ⟨.mark "(", frames⟩ :: fs)
  | unnamed (fs : List Framed) :
      AfterKeyword frames (⟨.optMark "&", frames⟩ :: ⟨.mark "(", frames⟩ :: fs)

end Framed

open Framed

/-- Each goal is placed, and relies on the goals below it: what a function has behind its keyword,
that constants are read at once, and that only goals of a type come before the name of one. -/
inductive Orderly : List Framed → Prop
  | nil : Orderly []
  | cons {f fs} (placed : f.Placed)
      (keyword : f.goal = .word "function" → AfterKeyword f.frames fs)
      (constants : atConstants fs = false)
      (typed : f.goal.isOfType = false → awaitConstant fs = false)
      (below : Orderly fs) : Orderly (f :: fs)

/-- The goals are in order, and no constant waits for the ones that may be put in front. -/
structure Firm (fs : List Framed) : Prop where
  orderly : Orderly fs
  await : awaitConstant fs = false
  constants : atConstants fs = false

variable {f : Framed} {fs : List Framed} {frames : List Frame} {g : Goal} {goals : List Goal}
variable {l : Lexeme} {rest : List Lexeme}

theorem Firm.not_waits (h : Firm fs) : ¬ (atConstants fs = true ∨ awaitConstant fs = true) := by
  simp [h.constants, h.await]

theorem Orderly.placed (h : Orderly (f :: fs)) : f.Placed := by
  cases h; assumption

theorem Orderly.firm (h : Orderly (f :: fs)) (hf : f.goal.isOfType = false) : Firm fs := by
  cases h with
  | cons _ _ constants typed below => exact ⟨below, typed hf, constants⟩

/-! ## Putting goals in front -/

theorem Framed.placed_of_mayStand (hproper : Frame.isProper frames = true)
    (hg : g.mayStand frames = true) : Placed ⟨g, frames⟩ := by
  refine ⟨?_, ?_, hproper⟩
  · cases g <;> simp_all [Goal.mayStand, Goal.isIdle]
  · rintro (rfl | rfl) <;> exact hg

theorem Firm.cons (h : Firm fs) (hproper : Frame.isProper frames = true)
    (hg : g.mayStand frames = true) : Firm (⟨g, frames⟩ :: fs) := by
  have hconstants : g ≠ .constants := by rintro rfl; cases hg
  have hconstant : g ≠ .constant := by rintro rfl; cases hg
  refine ⟨.cons (placed_of_mayStand hproper hg) ?_ h.constants (fun _ => h.await) h.orderly, ?_, ?_⟩
  · rintro rfl
    cases hg
  · simp [awaitConstant, hconstant, h.await]
  · simp [atConstants, hconstants]

/-- Goals that may stand anywhere in their frames may be put in front. -/
theorem Firm.append (h : Firm fs) (frames : List Frame) (goals : List Goal)
    (hproper : Frame.isProper frames = true) (hgoals : goals.all (Goal.mayStand frames) = true) :
    Firm (goals.map (⟨·, frames⟩) ++ fs) := by
  induction goals with
  | nil => exact h
  | cons g goals ih =>
    rw [List.all_cons, Bool.and_eq_true] at hgoals
    exact (ih hgoals.2).cons hproper hgoals.1

theorem Firm.keyword (h : Firm fs) (hproper : Frame.isProper frames = true)
    (hafter : AfterKeyword frames fs) : Firm (⟨.word "function", frames⟩ :: fs) :=
  ⟨.cons ⟨rfl, nofun, hproper⟩ (fun _ => hafter) h.constants (fun _ => h.await) h.orderly, rfl, rfl⟩

theorem Firm.functionParts (h : Firm fs) (hnamed : InNamed frames)
    (hproper : Frame.isProper frames = true) : Firm (Goal.functionParts.map (⟨·, frames⟩) ++ fs) := by
  have hname : Firm ([.optMark "&", .anyWord .name, .mark "(", .parameters, .mark ")", .returnType,
      .body].map (⟨·, frames⟩) ++ fs) := h.append _ _ hproper rfl
  have hkeyword := hname.keyword hproper (.named hnamed _)
  exact hkeyword.append frames [.attributes, .modifiers] hproper rfl

theorem Firm.closureParts (h : Firm fs) (frames : List Frame)
    (hproper : Frame.isProper frames = true) : Firm (Goal.closureParts.map (⟨·, frames⟩) ++ fs) := by
  have hmark : Firm ([.optMark "&", .mark "(", .parameters, .mark ")", .captures, .returnType,
      .block].map (⟨·, frames⟩) ++ fs) := h.append _ _ hproper rfl
  have hkeyword := hmark.keyword hproper (.unnamed _)
  exact hkeyword.append frames [.attributes, .optWord "static"] hproper rfl

/-! ## What goals answer -/

theorem Goal.mayStand_of_isOrdinary (hg : g.isOrdinary = true) (frames : List Frame) :
    g.mayStand frames = true := by
  cases g <;> simp_all [Goal.mayStand, Goal.isOrdinary, Goal.isIdle]

theorem Goal.isOrdinary_of_isOfType (hg : g.isOfType = true) : g.isOrdinary = true := by
  cases g <;> simp_all [Goal.isOfType, Goal.isOrdinary]

theorem Framed.child_of_ne (f : Framed) (hg : g ≠ .memberBlock) : f.child g = ⟨g, f.frames⟩ := by
  simp [child, hg]

theorem Framed.map_child (f : Framed) (hgoals : .memberBlock ∉ goals) :
    goals.map f.child = goals.map (⟨·, f.frames⟩) :=
  List.map_congr_left fun _ hg => f.child_of_ne fun he => hgoals (he ▸ hg)

theorem Framed.map_child_of_isOrdinary (f : Framed) (hgoals : goals.all Goal.isOrdinary = true) :
    goals.map f.child = goals.map (⟨·, f.frames⟩) :=
  f.map_child fun hmem => by cases List.all_eq_true.1 hgoals _ hmem

/-- Goals of a type may be put in front where more of them may stand. They leave it open whether a
constant waits below. -/
theorem Orderly.append_ofType (h : Orderly fs) (hconstants : atConstants fs = false)
    (hproper : Frame.isProper frames = true) (goals : List Goal)
    (hgoals : goals.all Goal.isOfType = true) :
    Orderly (goals.map (⟨·, frames⟩) ++ fs) ∧
      atConstants (goals.map (⟨·, frames⟩) ++ fs) = false ∧
      awaitConstant (goals.map (⟨·, frames⟩) ++ fs) = awaitConstant fs := by
  induction goals with
  | nil => exact ⟨h, hconstants, rfl⟩
  | cons g goals ih =>
    rw [List.all_cons, Bool.and_eq_true] at hgoals
    obtain ⟨hg, hgoals⟩ := hgoals
    obtain ⟨hrest, hhead, hawait⟩ := ih hgoals
    have hstand := Goal.mayStand_of_isOrdinary (Goal.isOrdinary_of_isOfType hg) frames
    have hconstant : g ≠ .constant := by rintro rfl; cases hg
    refine ⟨.cons (placed_of_mayStand hproper hstand) ?_ hhead (fun hno => ?_) hrest, ?_, ?_⟩
    · rintro rfl
      cases hg
    · rw [hg] at hno
      cases hno
    · cases g <;> first | rfl | cases hg
    · simp [awaitConstant, hconstant, hg, hawait]

/-- A goal for constants may be put in front, but no other goal in front of it. -/
theorem Firm.orderly_cons (h : Firm fs) (hplaced : Placed ⟨g, frames⟩)
    (hg : g ≠ .word "function") : Orderly (⟨g, frames⟩ :: fs) :=
  .cons hplaced (fun he => absurd he hg) h.constants (fun _ => h.await) h.orderly

/-- The goals that come from one place only are in order there. -/
theorem Firm.leaves {r : Response} (h : Firm fs) (hplaced : f.Placed)
    (hleaves : Goal.Leaves l f.goal r) : Orderly (r.goals.map f.child ++ fs) := by
  obtain ⟨g, frames⟩ := f
  obtain ⟨-, hbody, hproper⟩ := hplaced
  dsimp only at hbody hproper hleaves
  cases hleaves with
  | const =>
    rw [map_child _ (by simp [Response.goals])]
    have hsemicolon : Firm (⟨.semicolon, frames⟩ :: fs) := h.cons hproper rfl
    exact hsemicolon.orderly_cons ⟨rfl, nofun, hproper⟩ nofun
  | untyped | comma =>
    rw [map_child _ (by simp [Response.goals])]
    exact h.orderly_cons ⟨rfl, nofun, hproper⟩ nofun
  | typed =>
    rw [map_child _ (by simp [Response.goals])]
    have hconstant : Orderly (⟨.constant, frames⟩ :: fs) :=
      h.orderly_cons ⟨rfl, nofun, hproper⟩ nofun
    exact (hconstant.append_ofType rfl hproper [.type false] rfl).1
  | block =>
    rw [map_child _ (by simp [Response.goals])]
    exact (h.append _ _ hproper (by simp [Response.goals, Goal.mayStand, Goal.isIdle, hbody])).orderly
  | tag =>
    rw [map_child _ (by simp [Response.goals])]
    exact (h.append _ _ hproper (by simp [Response.goals, Goal.mayStand, hbody])).orderly
  | member =>
    rw [map_child _ (by simp [Response.goals])]
    exact (h.append _ _ hproper (by simp [Response.goals, Goal.mayStand, Goal.isIdle, hbody])).orderly
  | anonymous =>
    -- the members of the class stand in it, what comes before and after them does not
    have htail : Firm (⟨.tail, frames⟩ :: fs) := h.cons hproper rfl
    have hblock : Firm (⟨.memberBlock, .anonymous :: frames⟩ :: ⟨.tail, frames⟩ :: fs) :=
      htail.cons rfl rfl
    exact (hblock.append frames [.optArguments, .heritage] hproper rfl).orderly

/-- What a goal of a type answers with is in order, and a constant waits below it as it did. -/
theorem Orderly.answered_ofType (h : Orderly (f :: fs)) (hf : f.goal.isOfType = true) (l : Lexeme)
    (rest : List Lexeme) : let group := (f.goal.respondAt l rest).goals.map f.child
      Orderly (group ++ fs) ∧ atConstants (group ++ fs) = false ∧
        awaitConstant (group ++ fs) = awaitConstant fs := by
  have hgoals := Goal.ofType_goals hf l rest
  have hordinary : (f.goal.respondAt l rest).goals.all Goal.isOrdinary = true :=
    List.all_eq_true.2 fun g hg => Goal.isOrdinary_of_isOfType (List.all_eq_true.1 hgoals g hg)
  dsimp only
  rw [f.map_child_of_isOrdinary hordinary]
  cases h with
  | cons placed _ hconstants _ hbelow => exact hbelow.append_ofType hconstants placed.proper _ hgoals

/-- Where no goal of a type stands, no constant waits behind goals that may stand anywhere. -/
theorem Orderly.answered_firm (h : Orderly (f :: fs)) (hf : f.goal.isOfType = false) (l : Lexeme)
    (rest : List Lexeme) (hordinary : (f.goal.respondAt l rest).goals.all Goal.isOrdinary = true) :
    Firm ((f.goal.respondAt l rest).goals.map f.child ++ fs) := by
  rw [f.map_child_of_isOrdinary hordinary]
  refine (h.firm hf).append _ _ h.placed.proper (List.all_eq_true.2 fun g hg => ?_)
  exact Goal.mayStand_of_isOrdinary (List.all_eq_true.1 hordinary g hg) f.frames

/-- **The order is kept** where a goal is replaced by what it answers with. -/
theorem Orderly.answered (h : Orderly (f :: fs)) (l : Lexeme) (rest : List Lexeme) :
    Orderly ((f.goal.respondAt l rest).goals.map f.child ++ fs) := by
  cases hf : f.goal.isOfType with
  | true => exact (h.answered_ofType hf l rest).1
  | false =>
    rcases f.goal.respondAt_cases l rest with hordinary | hleaves
    · exact (h.answered_firm hf l rest hordinary).orderly
    · exact (h.firm hf).leaves h.placed hleaves

/-- **The order is kept** where a scope opens, and no constant waits there. -/
theorem Orderly.opened {o : Opening} {inner after : List Goal} (h : Orderly (f :: fs))
    (ho : f.goal.respondAt l rest = .opens o inner after) :
    Firm (f.opened o inner after ++ fs) := by
  obtain ⟨g, frames⟩ := f
  have hopens := Goal.respondAt_opens ho
  obtain ⟨-, hbody, hproper⟩ := h.placed
  dsimp only at hopens hbody hproper
  rw [Framed.opened, List.append_assoc, List.cons_append]
  have hleave {fs : List Framed} (h : Firm fs) : Firm (⟨.leave 0, frames⟩ :: fs) :=
    h.cons hproper rfl
  cases hopens with
  | cls name =>
    exact (hleave (h.firm rfl)).append (.cls name :: frames) Goal.classParts rfl rfl
  | function name =>
    exact (hleave (h.firm rfl)).functionParts (.function frames) rfl
  | method name =>
    have hmembers : Firm (⟨.members, frames⟩ :: fs) := (h.firm rfl).cons hproper (hbody (.inl rfl))
    exact (hleave hmembers).functionParts (.method frames) (hbody (.inl rfl))
  | closure =>
    have htail : Firm (⟨.tail, frames⟩ :: fs) := (h.firm rfl).cons hproper rfl
    exact (hleave htail).closureParts (.closure :: frames) rfl
  | arrow =>
    exact (hleave (h.firm rfl)).append (.closure :: frames) Goal.arrowParts rfl rfl

namespace Framed

variable {role : Role} {f' : Framed} {fs' : List Framed}

/-- How the order is where a lexeme is taken. -/
theorem Meets.taken (h : Meets l rest fs role f fs') (ho : Orderly fs) :
    ∃ more below, f.goal.respondAt l rest = .take role more ∧ Orderly (f :: below) ∧
      fs' = more.map f.child ++ below := by
  induction h with
  | take answer => exact ⟨_, _, answer, ho, rfl⟩
  | become answer _ ih =>
    have hanswered := ho.answered l rest
    rw [answer] at hanswered
    exact ih hanswered
  | opens answer _ ih => exact ih (ho.opened answer).orderly

theorem Meets.orderly (h : Meets l rest fs role f fs') (ho : Orderly fs) : Orderly fs' := by
  obtain ⟨more, below, hanswer, hbelow, rfl⟩ := h.taken ho
  have hanswered := hbelow.answered l rest
  rw [hanswer] at hanswered
  exact hanswered

end Framed

/-- **The goals are in order** wherever the reading of a file comes past. -/
theorem Stage.Reached.orderly {content : List Char} {g : Stage} (hp : parses content = true)
    (h : Stage.Reached content g) : Orderly g.stack := by
  induction h with
  | start => exact .cons ⟨rfl, nofun, rfl⟩ nofun rfl (fun _ => rfl) .nil
  | blank _ _ ih => exact ih
  | silent _ _ _ ih => exact ih
  | spoken here heard ih =>
    obtain ⟨f, fs', h⟩ := here.exists_heard hp rfl heard
    dsimp only
    rw [show (Framed.meet _ _ _).2 = fs' from congrArg Prod.snd h.meet]
    exact h.framed.meets.orderly ih

end PhpRename.Php
