import PhpRename.Proofs.Php.Site

/-!
# The arguments of include statements

An include statement has a target where its argument is one literal, with or without the directory
of the file in front of it. The code around the literal tells: before it, read backwards, stands the
keyword, and behind it the end of the statement. An argument in parentheses ends with the closing
one, and what comes behind that is not looked at.

* `DirPrefix`: what stands for the directory of the file.
* `Argument`: a literal is what an include keyword stands before, as far as is looked at.
* `target_iff_argument`: the targets are the literals of such arguments.
* `target_goes_on`: the argument of a target may go on behind its parentheses.
-/

namespace PhpRename.Php

open Site

/-- What stands for the directory of the file in front of a literal, read backwards from the dot up
to what is `before` it; or nothing of that kind. -/
inductive DirPrefix : Bool → List Token → List Token → Prop
  | none {before} (h : ∀ p ∈ before.head?, p.isPunct "." = false) : DirPrefix false before before
  | constant {dot c before} (hdot : dot.isPunct "." = true) (hc : c.text = "__DIR__") :
      DirPrefix true (dot :: c :: before) before
  | call {dot close file paren f before} (hdot : dot.isPunct "." = true)
      (hclose : close.isPunct ")" = true) (hfile : file.text = "__FILE__")
      (hparen : paren.isPunct "(" = true) (hf : lowercase f.text = "dirname") :
      DirPrefix true (dot :: close :: file :: paren :: f :: before) before

/-- The token ends a statement. -/
def endsStatement (t : Token) : Bool :=
  t.isPunct ";" || "?>".toList.isPrefixOf t.text.toList

/-- The literal at the site stands behind an include keyword, with the directory of the file in front
of it or not. Without parentheses the statement ends there, or the file; in parentheses the closing
one follows. The code `behind` comes after. -/
inductive Argument (s : Site) (fromDir : Bool) : Bool → List Token → Prop
  | plain {k before} (hfront : DirPrefix fromDir (code s.before) (k :: before))
      (hk : includeWords.any k.isKeyword = true)
      (hend : ∀ t ∈ (code s.after).head?, endsStatement t = true) :
      Argument s fromDir false (code s.after)
  | inParens {o k c before behind} (hfront : DirPrefix fromDir (code s.before) (o :: k :: before))
      (ho : o.isPunct "(" = true) (hk : includeWords.any k.isKeyword = true)
      (hafter : code s.after = c :: behind) (hc : c.isPunct ")" = true) :
      Argument s fromDir true behind

variable {s dot start : Site} {t : Target} {fromDir inParens : Bool} {before behind : List Token}

/-! ## In front of the literal -/

theorem dirPrefix_of_dirStart? (hdot : dot.token.isPunct "." = true)
    (h : dot.dirStart? = some start) :
    DirPrefix true (dot.token :: code dot.before) (code start.before) := by
  unfold dirStart? at h
  obtain ⟨last, hlast, h⟩ := Option.bind_eq_some_iff.1 h
  rw [code_before hlast]
  split at h
  · rename_i hc
    cases h
    exact .constant hdot hc
  split at h
  swap
  · cases h
  rename_i hclose
  obtain ⟨file, hfile, h⟩ := Option.bind_eq_some_iff.1 h
  obtain ⟨paren, hparen, h⟩ := Option.bind_eq_some_iff.1 h
  obtain ⟨f, hf, h⟩ := Option.bind_eq_some_iff.1 h
  rw [code_before hfile, code_before hparen, code_before hf]
  split at h
  swap
  · cases h
  rename_i hcall
  cases h
  simp only [Bool.and_eq_true, decide_eq_true_eq] at hcall
  exact .call hdot hclose hcall.1.1 hcall.1.2 hcall.2

/-- What is put in front of a literal is found. -/
theorem DirPrefix.exists_operandStart? (h : DirPrefix fromDir (code s.before) before) :
    ∃ start, s.operandStart? = some (start, fromDir) ∧ code start.before = before := by
  generalize hcode : code s.before = front at h
  cases h with
  | none hno =>
    refine ⟨s, ?_, hcode⟩
    unfold operandStart?
    cases hprev : s.prevCode? with
    | none => rfl
    | some p =>
      have hp : p.token.isPunct "." = false := by
        refine hno p.token ?_
        rw [← hcode, code_before hprev]
        rfl
      simp [hp]
  | @constant d c before hdot hc =>
    obtain ⟨dot, hprev, rfl, hrest⟩ := exists_prevCode? hcode
    obtain ⟨last, hlast, rfl, hbefore⟩ := exists_prevCode? hrest
    refine ⟨last, ?_, hbefore⟩
    simp [operandStart?, hprev, hdot, dirStart?, hlast, hc]
  | @call d c f o n before hdot hclose hfile hparen hf =>
    obtain ⟨dot, hprev, rfl, hfront⟩ := exists_prevCode? hcode
    obtain ⟨last, hlast, rfl, hcall⟩ := exists_prevCode? hfront
    obtain ⟨file, hprevFile, rfl, hopen⟩ := exists_prevCode? hcall
    obtain ⟨paren, hprevParen, rfl, hname⟩ := exists_prevCode? hopen
    obtain ⟨function, hprevName, rfl, hbefore⟩ := exists_prevCode? hname
    -- a closing parenthesis is not the word for the directory
    have hne : last.token.text ≠ "__DIR__" := by
      rw [(Token.isPunct_iff.1 hclose).2]
      decide
    refine ⟨function, ?_, hbefore⟩
    simp [operandStart?, hprev, hdot, dirStart?, hlast, hne, hclose, hprevFile,
      hprevParen, hprevName, hfile, hparen, hf]

theorem dirPrefix_of_operandStart? (h : s.operandStart? = some (start, fromDir)) :
    DirPrefix fromDir (code s.before) (code start.before) := by
  unfold operandStart? at h
  split at h
  · rename_i dot hprev
    split at h
    · rename_i hdot
      obtain ⟨first, hfirst, he⟩ := Option.map_eq_some_iff.1 h
      cases he
      rw [code_before hprev]
      exact dirPrefix_of_dirStart? hdot hfirst
    · rename_i hdot
      cases h
      refine .none fun p hp => ?_
      rw [code_before hprev] at hp
      cases hp
      simpa using hdot
  · rename_i hprev
    cases h
    refine .none fun p hp => ?_
    rw [code_eq_nil hprev] at hp
    cases hp

/-! ## Behind the literal -/

theorem endsArgument_false_iff :
    s.endsArgument false = true ↔ ∀ t ∈ (code s.after).head?, endsStatement t = true := by
  rw [endsArgument, next?_eq_head?]
  cases (code s.after).head? with
  | none => simp
  | some next => simp [endsStatement]

theorem endsArgument_true_iff :
    s.endsArgument true = true ↔ ∃ c behind, code s.after = c :: behind ∧ c.isPunct ")" = true := by
  rw [endsArgument, next?_eq_head?]
  cases code s.after with
  | nil => simp
  | cons c behind => simp

/-- Without parentheses, what ends the statement is no operator. -/
theorem Argument.complete (h : Argument s fromDir false behind) :
    ∀ p ∈ behind.head?, p.isPunct "." = false := by
  cases h with
  | plain hfront hk hend =>
    intro p hp
    have hends := hend p hp
    rw [Bool.eq_false_iff, ne_eq, Token.isPunct_iff]
    rintro ⟨hkind, htext⟩
    simp [endsStatement, Token.isPunct, htext] at hends

/-! ## Targets -/

theorem argument_of_target? (h : s.target? = some t) :
    ∃ inParens behind, Argument s t.fromDir inParens behind := by
  unfold target? at h
  obtain ⟨literal, hliteral, h⟩ := Option.bind_eq_some_iff.1 h
  obtain ⟨⟨start, fromDir⟩, hstart, h⟩ := Option.bind_eq_some_iff.1 h
  obtain ⟨front, hfront, h⟩ := Option.bind_eq_some_iff.1 h
  have hprefix := dirPrefix_of_operandStart? hstart
  rw [code_before hfront] at hprefix
  cases hparen : front.token.isPunct "(" with
  | false =>
    simp only [hparen, Bool.false_eq_true, if_false, Option.bind_eq_bind, Option.bind_some] at h
    split at h
    swap
    · cases h
    rename_i hends
    rw [Bool.and_eq_true] at hends
    cases h
    exact ⟨false, _, .plain hprefix hends.1 (endsArgument_false_iff.1 hends.2)⟩
  | true =>
    simp only [hparen, if_true, Option.bind_eq_bind] at h
    obtain ⟨keyword, hkeyword, h⟩ := Option.bind_eq_some_iff.1 h
    rw [code_before hkeyword] at hprefix
    split at h
    swap
    · cases h
    rename_i hends
    rw [Bool.and_eq_true] at hends
    obtain ⟨c, behind, hafter, hc⟩ := endsArgument_true_iff.1 hends.2
    cases h
    exact ⟨true, behind, .inParens hprefix hparen hends.1 hafter hc⟩

theorem Argument.target?_eq (h : Argument s fromDir inParens behind) {literal : String}
    (hliteral : s.token.literal? = some literal) :
    s.target? = some ⟨literal, s.token.offset + 1, fromDir⟩ := by
  cases h with
  | @plain k before hfront hk hend =>
    obtain ⟨start, hstart, hbefore⟩ := hfront.exists_operandStart?
    obtain ⟨front, hprev, rfl, -⟩ := exists_prevCode? hbefore
    -- the keyword is no parenthesis
    have hparen : front.token.isPunct "(" = false := by
      obtain ⟨w, -, hw⟩ := List.any_eq_true.1 hk
      exact Bool.eq_false_iff.2 (Token.not_isPunct_of_isKeyword hw)
    have hends := endsArgument_false_iff.2 hend
    simp [target?, hliteral, hstart, hprev, hparen, hk, hends, -List.any_eq_true]
  | @inParens o k c before behind hfront ho hk hafter hc =>
    obtain ⟨start, hstart, hbefore⟩ := hfront.exists_operandStart?
    obtain ⟨front, hprev, rfl, hrest⟩ := exists_prevCode? hbefore
    obtain ⟨keyword, hkeyword, rfl, -⟩ := exists_prevCode? hrest
    have hends := endsArgument_true_iff.2 ⟨c, behind, hafter, hc⟩
    simp [target?, hliteral, hstart, hprev, ho, hkeyword, hk, hends, -List.any_eq_true]

/-- **A target is the literal of an argument**, and every such literal is one. Without parentheses
the literal, with what is in front of it, is the whole argument. In parentheses it is all that they
hold; what comes behind them makes no difference. -/
theorem target_iff_argument (s : Site) (t : Target) :
    s.target? = some t ↔
      (s.token.literal? = some t.literal ∧ t.offset = s.token.offset + 1) ∧
      ∃ inParens behind, Argument s t.fromDir inParens behind ∧
        (inParens = false → ∀ p ∈ behind.head?, p.isPunct "." = false) := by
  constructor
  · intro h
    obtain ⟨inParens, behind, hargument⟩ := argument_of_target? h
    refine ⟨target?_eq_some h, inParens, behind, hargument, ?_⟩
    rintro rfl
    exact hargument.complete
  · rintro ⟨⟨hliteral, hoffset⟩, inParens, behind, hargument, -⟩
    rw [hargument.target?_eq hliteral, ← hoffset]

/-- **The argument of a target may go on behind its parentheses.** The statement includes `a.php`. -/
theorem target_goes_on :
    let source := Source.read ⟨"/p/t.php"⟩ "<?php\nrequire('a') . '.php';\n"
    ¬ ∀ s ∈ Site.all source, ∀ t inParens behind, s.target? = some t →
      Argument s t.fromDir inParens behind → ∀ p ∈ behind.head?, p.isPunct "." = false := by
  intro source hall
  have hsite : ((Site.all source).any fun s => s.token.text = "'a'" && s.target?.isSome &&
      code s.after = [⟨.punct, ")", ")", 17, 2, 0⟩, ⟨.punct, ".", ".", 19, 2, 0⟩,
        ⟨.string, "string", "'.php'", 21, 2, 0⟩, ⟨.punct, ";", ";", 27, 2, 0⟩]) = true := by
    decide +kernel
  obtain ⟨s, hs, hq⟩ := List.any_eq_true.1 hsite
  simp only [Bool.and_eq_true, decide_eq_true_eq] at hq
  obtain ⟨⟨-, hsome⟩, hafter⟩ := hq
  obtain ⟨t, ht⟩ := Option.isSome_iff_exists.1 hsome
  obtain ⟨inParens, behind, hargument⟩ := argument_of_target? ht
  have hno := hall s hs t inParens behind ht hargument
  cases hargument with
  | plain hfront hk hend =>
    have hends := hend ⟨.punct, ")", ")", 17, 2, 0⟩ (by rw [hafter]; rfl)
    revert hends
    decide +kernel
  | inParens hfront ho hk hafter' hc =>
    rw [hafter] at hafter'
    obtain ⟨-, rfl⟩ := List.cons.inj hafter'
    cases hno _ rfl

end PhpRename.Php
