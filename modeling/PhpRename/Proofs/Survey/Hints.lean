import PhpRename.Facts.Variables
import PhpRename.Proofs.Php.ClassWord
import PhpRename.Proofs.Php.Paren

/-!
# Where types are taken for hints

The type of a parameter, or of what is caught, is read backwards from its variable: the names and the
marks of a type, as far as they go, and in front of them an opening parenthesis, a comma or a
modifier. What has opened the parenthesis is not asked. So a variable that is declared so is one of a
parameter list, or of a `catch` clause; but an operand behind names and `|`, `&` or `?` reads
the same.

* `Facts.TypeRead`, `Facts.exists_typeRead`: the type that is read is a piece of the tokens.
* `Goal.variable_take`: what goals take variables.
* `Facts.hinted_places`: where something is learnt from a type.
-/

namespace PhpRename

open Php

/-! ## Types that are read backwards -/

namespace Facts

/-- The token is part of a type, as far as types are read. -/
def isTypePart (t : Token) : Bool :=
  isTypeName t || t.isPunct "|" || t.isPunct "\\" || t.isPunct "?"

/-- The token stands between a type and the variable. -/
def isTypeMark (t : Token) : Bool :=
  t.isPunct "&" || t.isPunct "..."

/-- The code tokens end with what reads like the type of a parameter: in front of it a parameter may
begin, and a name is among its parts. The nearest token is the first one. -/
def ReadsTyped (tokens : List Token) : Prop :=
  ∃ marks type front past, tokens = marks ++ (type ++ front :: past) ∧
    marks.all isTypeMark = true ∧ type.all isTypePart = true ∧ type.any isTypeName = true ∧
    opensParameter front = true

/-- The names, and the token in front, are read of the tokens: `type` is what stands behind that
token, and the names are among its parts. -/
structure TypeRead (tokens : List Token) (names : List String) (front : Option Token)
    (type past : List Token) : Prop where
  tokens : tokens = type ++ (front.toList ++ past)
  parts : type.all isTypePart = true
  names : ∀ name ∈ names, ∃ t ∈ type, t.text = name ∧ isTypeName t = true

section TypeRead

variable {tokens type past : List Token} {names : List String} {front : Option Token} {t : Token}

theorem TypeRead.part (h : TypeRead tokens names front type past) (ht : isTypePart t = true) :
    TypeRead (t :: tokens) names front (t :: type) past where
  tokens := by rw [h.tokens, List.cons_append]
  parts := by simp [ht, h.parts]
  names := fun name hname =>
    have ⟨u, hu, hq⟩ := h.names name hname
    ⟨u, List.mem_cons_of_mem t hu, hq⟩

theorem TypeRead.name (h : TypeRead tokens names front type past) (ht : isTypeName t = true) :
    TypeRead (t :: tokens) (t.text :: names) front (t :: type) past where
  tokens := by rw [h.tokens, List.cons_append]
  parts := by simp [isTypePart, ht, h.parts]
  names := List.forall_mem_cons.2 ⟨⟨t, List.mem_cons_self, rfl, ht⟩, fun name hname =>
    have ⟨u, hu, hq⟩ := h.names name hname
    ⟨u, List.mem_cons_of_mem t hu, hq⟩⟩

/-- **What is read of a type is a piece of the tokens**, with the token in front of it. -/
theorem exists_typeRead (expectName : Bool) (tokens : List Token) : ∃ type past,
    TypeRead tokens (alternatives expectName tokens).1 (alternatives expectName tokens).2 type past := by
  induction tokens generalizing expectName with
  | nil => exact ⟨[], [], rfl, rfl, nofun⟩
  | cons t before ih =>
    rw [alternatives]
    split
    · rename_i ht
      obtain ⟨type, past, hread⟩ := ih false
      refine ⟨t :: type, past, ?_⟩
      -- the name counts where one is expected
      cases expectName with
      | true => exact hread.name ht
      | false => exact hread.part (by simp [isTypePart, ht])
    split
    · rename_i ht
      obtain ⟨type, past, hread⟩ := ih true
      exact ⟨t :: type, past, hread.part (by simp [isTypePart, ht])⟩
    split
    · rename_i ht
      obtain ⟨type, past, hread⟩ := ih expectName
      refine ⟨t :: type, past, hread.part ?_⟩
      rcases Bool.or_eq_true_iff.1 ht with ht | ht <;> simp [isTypePart, ht]
    · exact ⟨[], before, rfl, rfl, nofun⟩

end TypeRead

/-- Something is learnt only behind what reads like a type, and it is what the variable holds. -/
theorem readsTyped_of_hinted {s : Site} {db : Symbols} {fact : Fact} (h : fact ∈ hinted s db) :
    s.token.kind = .variable ∧ s.inClassBody = false ∧ ReadsTyped (Site.code s.before) ∧
      ∃ cls, fact = .holds s.varScope s.token.text cls .typeHint := by
  rw [hinted] at h
  split at h
  · cases h
  rename_i hplace
  simp only [Bool.or_eq_true, decide_eq_true_eq, not_or, not_not, Bool.not_eq_true] at hplace
  dsimp only at h
  split at h
  · cases h
  rename_i hread
  simp only [Bool.or_eq_true, decide_eq_true_eq, not_or] at hread
  obtain ⟨hnames, hfront⟩ := hread
  split at h
  swap
  · cases h
  rename_i cls _
  refine ⟨hplace.1, hplace.2, ?_, cls, List.mem_singleton.1 h⟩
  obtain ⟨type, past, hread⟩ := exists_typeRead true ((Site.code s.before).dropWhile isTypeMark)
  obtain ⟨name, hname⟩ := List.exists_mem_of_ne_nil _ hnames
  obtain ⟨t, ht, -, hisName⟩ := hread.names name hname
  obtain ⟨front, hsome, hopens⟩ := (Option.any_eq_true _ _).1 (by simpa using hfront)
  refine ⟨(Site.code s.before).takeWhile isTypeMark, type, front, past, ?_, List.all_takeWhile,
    hread.parts, List.any_eq_true.2 ⟨t, ht, hisName⟩, hopens⟩
  have htokens := hread.tokens
  rw [show (alternatives true ((Site.code s.before).dropWhile isTypeMark)).2 = some front from hsome]
    at htokens
  exact htokens ▸ List.takeWhile_append_dropWhile.symm

end Facts

/-! ## Goals that take variables -/

namespace Php

open Goal

/-- The goal is for an expression, or for a part of one. -/
def Goal.isOperand : Goal → Bool
  | expr | dollar | member | classOperand | shell | shellIndex => true
  | _ => false

/-- **A variable is a part of an expression, a property, or one that is declared.** -/
theorem Goal.variable_take {g : Goal} {l : Lexeme} {rest : List Lexeme} {role : Role}
    {more : List Goal} (h : g.respondAt l rest = .take role more) (hl : l.kind = .variable) :
    g = .optVariable ∨ g = .properties ∨ g.isOperand = true := by
  have hmark : ∀ m, l.isMark m = false := fun m => by simp [Lexeme.isMark, hl]
  have hword : ∀ w, l.isWord w = false := fun w => by simp [Lexeme.isWord, hl]
  have hkeyword : l.keyword = "" := by simp [Lexeme.keyword, hl]
  cases g
  case optVariable => exact .inl rfl
  case properties => exact .inr (.inl rfl)
  case expr | dollar | member | classOperand | shell | shellIndex => exact .inr (.inr rfl)
  all_goals
    exfalso
    simp only [respondAt, atMark, List.head?_cons, Option.any_some, hmark, hword, hl, hkeyword] at h
    repeat' split at h
  all_goals first
    | (cases h; done)
    | simp_all [modifierWords]

namespace Reader

theorem kind_of_variable {l : Lexeme} {role : Role} {scope : ℕ}
    (h : (token l role scope).kind = .variable) : l.kind = .variable := by
  simp only [token, classify] at h
  cases hl : l.kind
  case «variable» => rfl
  case word => cases role <;> simp [hl] at h
  case comment =>
    simp only [hl] at h
    split at h <;> cases h
  all_goals simp [hl] at h

end Reader

namespace Site

open Stage

variable {s : Site} {path : Path} {content : String}

/-- The token is part of an expression. -/
def isOperand (s : Site) : Bool :=
  s.place?.any (·.goal.isOperand)

/-- The token is a property that is declared. -/
def isProperty (s : Site) : Bool :=
  s.place?.any (·.goal = .properties)

/-- **What variables there are in a file.** -/
theorem variable_cases (hp : parses content.toList = true)
    (hs : s ∈ all (Source.read path content)) (hkind : s.token.kind = .variable) :
    s.isBinder = true ∨ s.isProperty = true ∨ s.isOperand = true := by
  rcases exists_hears hp hs with ⟨g, l, ls, f, fs', hears⟩ | ⟨-, hother | hcomment⟩
  · obtain ⟨more, below, hanswer, -, -⟩ := hears.heard.answer hp
    have hl : l.kind = .variable := Reader.kind_of_variable (hears.token ▸ hkind)
    simpa [isBinder, isProperty, isOperand, hears.place] using Goal.variable_take hanswer hl
  · rw [hkind] at hother
    cases hother
  · simp [Token.isComment, hkind] at hcomment

end Site

end Php

/-! ## Hints -/

namespace Facts

variable {s : Site} {path : Path} {content : String} {fact : Fact}

/-- **Where something is learnt from a type**: where the tokens read like the type of a parameter.
The variable is declared there, and the innermost parenthesis around it opens a `catch` clause or a
list of parameters; or it is a property of a class without a name; or it is part of an expression,
which is taken for one of these. -/
theorem hinted_places (hp : parses content.toList = true)
    (hs : s ∈ Site.all (Source.read path content)) (db : Symbols) (h : fact ∈ hinted s db) :
    (∃ cls, fact = .holds s.varScope s.token.text cls .typeHint) ∧
    ReadsTyped (Site.code s.before) ∧
    (s.isBinder = true ∧ (∃ p, s.paren? = some p ∧
        (p.opensCatch = true ∨ p.opensParameters = true ∨ p.opensHook = true)) ∨
      s.isProperty = true ∧ s.inClassBody = false ∨
      s.isOperand = true) := by
  obtain ⟨hkind, hbody, hread, hfact⟩ := readsTyped_of_hinted h
  refine ⟨hfact, hread, ?_⟩
  rcases Site.variable_cases hp hs hkind with hbinder | hproperty | hoperand
  · obtain ⟨p, hparen, hopens⟩ := Site.paren_of_binder hp hs hbinder
    refine .inl ⟨hbinder, p, hparen, ?_⟩
    simpa [Site.opensHints, or_assoc] using hopens
  · exact .inr (.inl ⟨hproperty, hbody⟩)
  · exact .inr (.inr hoperand)

/-- A parameter that is taken by reference, behind a comma and a comment. -/
theorem hinted_places_reference :
    let source := Source.read ⟨"/p/t.php"⟩ "<?php\nfunction &f($a, A|B /* c */ &$b) \x7b\x7d\n"
    parses source.content.toList = true ∧
    ∃ s ∈ Site.all source, (∃ fact, fact ∈ hinted s Symbols.empty) ∧
      ∃ p, s.paren? = some p ∧
        (p.opensCatch = true ∨ p.opensParameters = true ∨ p.opensHook = true) := by
  intro source
  have hp : parses source.content.toList = true := by decide +kernel
  let sites := Site.all source
  let s := sites.get ⟨12, by decide +kernel⟩
  have hne : hinted s Symbols.empty ≠ [] := by decide +kernel
  obtain ⟨fact, hfact⟩ := List.exists_mem_of_ne_nil _ hne
  refine ⟨hp, s, List.get_mem _ _, ⟨fact, hfact⟩, ?_⟩
  obtain ⟨-, -, ⟨-, hparen⟩ | ⟨hproperty, -⟩ | hoperand⟩ :=
    hinted_places hp (List.get_mem _ _) Symbols.empty hfact
  · exact hparen
  · exact absurd hproperty (by decide +kernel)
  · exact absurd hoperand (by decide +kernel)

/-- **An operand is taken for a parameter.** -/
theorem operand_hinted :
    let source := Source.read ⟨"/p/t.php"⟩ "<?php\nif (X & $v) \x7b\x7d\n"
    parses source.content.toList = true ∧
    ¬ ∀ s ∈ Site.all source, ∀ db, hinted s db ≠ [] →
      ∃ p, s.paren? = some p ∧ (p.opensCatch = true ∨ p.opensParameters = true) := by
  intro source
  refine ⟨by decide +kernel, fun hall => ?_⟩
  let sites := Site.all source
  let s := sites.get ⟨5, by decide +kernel⟩
  obtain ⟨p, hparen, hopens⟩ := hall s (List.get_mem _ _) Symbols.empty (by decide +kernel)
  have hnone : s.paren?.any (fun p => p.opensCatch || p.opensParameters) = false := by
    decide +kernel
  rw [hparen, Option.any_some, Bool.or_eq_false_iff] at hnone
  simp [hnone] at hopens

end Facts

end PhpRename
