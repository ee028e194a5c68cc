import PhpRename.Proofs.Php.Lowercase
import PhpRename.Proofs.Php.Scope

/-!
# What goals answer

Most goals stand for goals that are read in one way wherever they stand. A few are of interest for
where they come from, and for what has been read when they come up: the bodies of classes, the names
of constants, and the keyword of a function.

* `Goal.respondAt_opens`: what opens a scope, and what is read within it.
* `Goal.respondAt_cases`: where the goals of interest come from.
* `Goal.keyword_function`: what is still to be read behind the keyword `function`.
* `Goal.ofType_goals`, `Goal.ofType_take`: what goals of a type leave, and what they take.
-/

namespace PhpRename.Php

namespace Lexeme

variable {l : Lexeme} {w : String}

theorem isWord_iff : l.isWord w = true ↔ l.kind = .word ∧ l.keyword = w := by
  simp [isWord]

theorem isMark_iff {m : String} : l.isMark m = true ↔ l.kind = .mark ∧ l.text = m := by
  simp [isMark]

/-- A word is no mark. -/
theorem isMark_of_word (h : l.kind = .word) (m : String) : l.isMark m = false := by
  simp [isMark, h]

/-- A mark is that mark only, and no word. -/
theorem of_isMark {m : String} (h : l.isMark m = true) : (∀ n, l.isMark n = decide (m = n)) ∧
    (∀ w, l.isWord w = false) ∧ l.keyword = "" := by
  obtain ⟨hkind, htext⟩ := isMark_iff.1 h
  exact ⟨fun n => by simp [isMark, hkind, htext], fun w => by simp [isWord, hkind],
    by simp [keyword, hkind]⟩

/-- Only words are keywords. -/
theorem isWord_of_keyword (h : l.keyword = w) (hw : w ≠ "") : l.isWord w = true := by
  refine isWord_iff.2 ⟨?_, h⟩
  unfold keyword at h
  split at h
  · assumption
  · exact absurd h.symm hw

end Lexeme

theorem Goal.atMark_of_word {l : Lexeme} (h : l.kind = .word) (rest : List Lexeme) (m : String) :
    atMark (l :: rest) m = false := by
  rw [atMark, List.head?_cons, Option.any_some, Lexeme.isMark_of_word h]

/-- The goals that are left for the place of the goal that answers. -/
def Response.goals : Response → List Goal
  | .take _ goals | .become goals => goals
  | .opens .. | .miss => []

namespace Goal

variable {g : Goal} {l : Lexeme} {rest : List Lexeme}

/-! ## Scopes -/

/-- What opens a scope: the declaration of a class or a function by a statement, a method, and a
function without a name. -/
inductive Opens : Goal → Opening → List Goal → List Goal → Prop
  | cls (name : String) : Opens .statement (.cls name) classParts []
  | function (name : String) : Opens .statement (.function name) functionParts []
  | method (name : String) : Opens .members (.function name) functionParts [.members]
  | closure : Opens .expr .closure closureParts [.tail]
  | arrow : Opens .expr .closure arrowParts []

theorem declaration_opens {look : List Lexeme} {o : Opening} {inner after : List Goal}
    (h : declaration look = .opens o inner after) : Opens .statement o inner after := by
  unfold declaration at h
  repeat' split at h
  all_goals cases h
  · exact .cls _
  · exact .function _

theorem wordStatement_opens {o : Opening} {inner after : List Goal}
    (h : wordStatement l rest = .opens o inner after) : Opens .statement o inner after := by
  unfold wordStatement at h
  repeat' split at h
  all_goals first | cases h | exact declaration_opens h

theorem anonymous?_opens {look : List Lexeme} {o : Opening} {inner after : List Goal}
    (h : anonymous? look = some (.opens o inner after)) : Opens .expr o inner after := by
  unfold anonymous? at h
  extract_lets _ tokens at h
  repeat' split at h
  all_goals cases h
  · exact .arrow
  · exact .closure

theorem operand_opens {o : Opening} {inner after : List Goal}
    (h : operand l rest = .opens o inner after) : Opens .expr o inner after := by
  unfold operand at h
  split at h
  · rename_i r hr
    subst h
    exact anonymous?_opens hr
  split at h
  · unfold wordOperand at h
    repeat' split at h
    all_goals cases h
  · unfold markOperand at h
    repeat' split at h
    all_goals cases h
  · cases h
  · cases h

/-- **What opens a scope.** -/
theorem respondAt_opens {o : Opening} {inner after : List Goal}
    (h : g.respondAt l rest = .opens o inner after) : Opens g o inner after := by
  cases g
  case expr => exact operand_opens h
  case statement =>
    unfold respondAt at h
    dsimp only at h
    repeat' split at h
    all_goals first | cases h | exact wordStatement_opens h | exact declaration_opens h
  case tail =>
    unfold respondAt at h
    dsimp only at h
    split at h
    · unfold wordTail at h
      repeat' split at h
      all_goals cases h
    · unfold markTail at h
      repeat' split at h
      all_goals cases h
    · cases h
  case members =>
    unfold respondAt at h
    dsimp only at h
    repeat' split at h
    all_goals cases h
    exact .method _
  all_goals
    unfold respondAt at h
    dsimp only at h
    repeat' split at h
  all_goals cases h

/-! ## Where goals come from -/

/-- No goal leaves a goal like this one. -/
def isIdle : Goal → Bool
  | optWord w => w = "function"
  | anyWord role => role = .keyword
  | _ => false

/-- The goal may stand anywhere. -/
def isOrdinary : Goal → Bool
  | word w | optWord w => w ≠ "function"
  | anyWord role => role ≠ .keyword
  | constants | constant | members | memberBlock => false
  | _ => true

/-- Where the other goals come from, those of functions apart. -/
inductive Leaves (l : Lexeme) : Goal → Response → Prop
  | const {g : Goal} (word : l.isWord "const" = true) :
      Leaves l g (.take .keyword [.constants, .semicolon])
  | untyped : Leaves l .constants (.become [.constant])
  | typed : Leaves l .constants (.become [.type false, .constant])
  | comma (mark : l.isMark "," = true) : Leaves l .moreConstants (.take .plain [.constant])
  | block : Leaves l .memberBlock (.take .plain [.members, .mark closeBrace])
  | anonymous : Leaves l .created (.take .keyword [.optArguments, .heritage, .memberBlock, .tail])
  | tag : Leaves l .members (.take .plain [.members])
  | member : Leaves l .members (.become [.attributes, .modifiers, .memberCore, .members])

theorem declaration_ordinary (look : List Lexeme) :
    (declaration look).goals.all isOrdinary = true := by
  unfold declaration
  repeat' split
  all_goals rfl

theorem wordStatement_cases (l : Lexeme) (rest : List Lexeme) :
    (wordStatement l rest).goals.all isOrdinary = true ∨
      Leaves l .statement (wordStatement l rest) := by
  by_cases hconst : l.keyword = "const"
  · right
    simp only [wordStatement, hconst]
    exact .const (Lexeme.isWord_of_keyword hconst (by decide))
  left
  unfold wordStatement
  split
  all_goals first
    | rfl
    | exact declaration_ordinary _
    | exact absurd (by assumption) hconst
    | (split <;> rfl)

theorem operand_ordinary (l : Lexeme) (rest : List Lexeme) :
    (operand l rest).goals.all isOrdinary = true := by
  unfold operand
  split
  · rename_i r hr
    unfold anonymous? at hr
    extract_lets _ tokens at hr
    repeat' split at hr
    all_goals cases hr
    · rfl
    · rfl
  split
  · unfold wordOperand
    repeat' split
    all_goals rfl
  · unfold markOperand
    repeat' split
    all_goals rfl
  · rfl
  · rfl

/-- **Where goals come from.** -/
theorem respondAt_cases (g : Goal) (l : Lexeme) (rest : List Lexeme) :
    (g.respondAt l rest).goals.all isOrdinary = true ∨ Leaves l g (g.respondAt l rest) := by
  cases g
  case expr => exact .inl (operand_ordinary l rest)
  case statement =>
    unfold respondAt
    dsimp only
    split
    · exact .inl rfl
    · exact wordStatement_cases l rest
    · repeat' split
      all_goals first | exact .inl rfl | exact .inl (declaration_ordinary _)
    · exact .inl rfl
  case tail =>
    left
    unfold respondAt
    dsimp only
    split
    · unfold wordTail
      split <;> rfl
    · unfold markTail
      repeat' split
      all_goals rfl
    · rfl
  case memberCore =>
    unfold respondAt
    dsimp only
    split
    · rename_i hconst
      exact .inr (.const (Lexeme.isWord_of_keyword hconst (by decide)))
    all_goals exact .inl rfl
  case constants =>
    unfold respondAt
    dsimp only
    split
    · exact .inr .untyped
    · exact .inr .typed
  case moreConstants =>
    unfold respondAt
    dsimp only
    split
    · rename_i hcomma
      exact .inr (.comma hcomma)
    · exact .inl rfl
  case memberBlock =>
    unfold respondAt
    dsimp only
    split
    · exact .inr .block
    · exact .inl rfl
  case created =>
    unfold respondAt
    dsimp only
    repeat' split
    all_goals first | exact .inl rfl | exact .inr .anonymous
  case members =>
    unfold respondAt
    dsimp only
    repeat' split
    all_goals first | exact .inl rfl | exact .inr .tag | exact .inr .member
  -- every other goal answers with goals that are written out
  all_goals
    left
    unfold respondAt
    dsimp only
    repeat' split
  all_goals rfl

/-! ## The keyword of a function -/

/-- What is still to be read where the keyword `function` has been. -/
inductive AfterFunction : Goal → List Goal → Prop
  | word : AfterFunction (.word "function") []
  | imports : AfterFunction .imports [.importPath]
  | directive : AfterFunction .directive [.mark "=", .expr]

theorem declaration_ne_take (look : List Lexeme) (role : Role) (more : List Goal) :
    declaration look ≠ .take role more := by
  unfold declaration
  repeat' split
  all_goals exact nofun

/-- Only a function without a name is an operand that is not told by the lexeme. -/
theorem operand_take {role : Role} {more : List Goal} (h : operand l rest = .take role more) :
    (match l.kind with
      | .word => wordOperand l rest
      | .mark => markOperand l.text rest
      | .closeTag => .become []
      | _ => .take .plain [tail]) = .take role more := by
  unfold operand at h
  split at h
  · rename_i hr
    unfold anonymous? at hr
    extract_lets _ tokens at hr
    repeat' split at hr
    all_goals cases hr
    all_goals cases h
  · exact h

theorem operand_ne_function {more : List Goal} (hl : l.isWord "function" = true) :
    operand l rest ≠ .take .keyword more := by
  obtain ⟨hkind, hword⟩ := Lexeme.isWord_iff.1 hl
  intro h
  have htake := operand_take h
  simp [hkind, wordOperand, Lexeme.isWord, hword, prefixWords] at htake
  split at htake <;> cases htake

/-- The words that are keywords in the place of a type. -/
def typeWords : List String :=
  ["array", "bool", "float", "int", "object", "null"]

/-- A keyword in the place of a type is one of a few words. -/
theorem typeRole_keyword {r : Bool} (h : typeRole r l = .keyword) (hkind : l.kind = .word) :
    l.keyword ∈ typeWords := by
  have htext : l.text ∈ typeWords := by
    unfold typeRole at h
    split at h
    · rename_i hmem
      exact List.contains_iff_mem.1 hmem
    repeat' split at h
    all_goals cases h
  have hlower : ∀ w ∈ typeWords, lowercase w = w := by simp only [lowercase_eq_iff]; decide
  simp only [Lexeme.keyword, hkind, hlower _ htext]
  exact htext

/-- **What is still to be read behind the keyword of a function.** -/
theorem keyword_function {more : List Goal} (h : g.respondAt l rest = .take .keyword more)
    (hl : l.isWord "function" = true) (hg : g.isIdle = false) : AfterFunction g more := by
  obtain ⟨hkind, hword⟩ := Lexeme.isWord_iff.1 hl
  have hmark := Lexeme.isMark_of_word hkind
  cases g
  case word w =>
    simp only [respondAt, Lexeme.isWord, hkind, hword] at h
    split at h
    · rename_i hw
      cases h
      obtain rfl : "function" = w := by simpa using hw
      exact .word
    · cases h
  case optWord w =>
    have hw : w ≠ "function" := by simpa [isIdle] using hg
    simp [respondAt, Lexeme.isWord, hkind, hword, hw.symm] at h
  case anyWord role =>
    have hrole : role ≠ .keyword := by simpa [isIdle] using hg
    simp [respondAt, hkind, hrole] at h
  case imports =>
    simp only [respondAt] at h
    repeat' split at h
    all_goals cases h
    exact .imports
  case directive =>
    simp only [respondAt, hkind, if_true] at h
    cases h
    exact .directive
  case expr => exact absurd h (operand_ne_function hl)
  case statement =>
    simp only [respondAt, hkind, wordStatement, hword] at h
    exact absurd h (declaration_ne_take _ _ _)
  case tail =>
    simp only [respondAt, hkind, wordTail, hword] at h
    cases h
  case type r =>
    simp only [respondAt, atMark, List.head?_cons, Option.any_some, hmark, hkind, if_true,
      Bool.false_eq_true, if_false] at h
    split at h
    · cases h
    · have hmem := typeRole_keyword (Response.take.inj h).1 hkind
      rw [hword] at hmem
      exact absurd hmem (by decide)
  case members =>
    unfold respondAt at h
    simp only [atMark, List.head?_cons, Option.any_some, hmark, hkind] at h
    repeat' split at h
    all_goals cases h
  -- every other goal takes the word as something else, or not at all
  all_goals
    simp only [respondAt, atMark, List.head?_cons, Option.any_some, hmark, Lexeme.isWord, hkind,
      hword] at h
    repeat' split at h
  all_goals first | (cases h; done) | simp_all [modifierWords]
/-! ## Types -/

/-- The goal is one that a type stands for. -/
def isOfType : Goal → Bool
  | type _ | moreType _ | qualified | segments => true
  | anyWord role => role = .name
  | mark m => m = ")"
  | _ => false

/-- The goal takes any word that comes next, or stands for one that does. -/
def wantsWord : Goal → Bool
  | type _ | qualified => true
  | anyWord role => role = .name
  | _ => false

/-- **Types are of types only.** -/
theorem ofType_goals (hg : g.isOfType = true) (l : Lexeme) (rest : List Lexeme) :
    (g.respondAt l rest).goals.all isOfType = true := by
  cases g
  case type | moreType | qualified | segments | anyWord | mark =>
    unfold respondAt
    dsimp only
    repeat' split
    all_goals rfl
  all_goals cases hg

/-- **What a type takes**: it ends with a word or a closing parenthesis, and after anything else a
word is still to come. -/
theorem ofType_take {role : Role} {more : List Goal} (hg : g.isOfType = true)
    (h : g.respondAt l rest = .take role more) :
    l.isMark ")" = true ∨
      (l.kind = .word ∧ (role = .keyword → l.keyword ∈ "namespace" :: typeWords)) ∨
      ∃ g' more', more = g' :: more' ∧ g'.wantsWord = true := by
  cases g
  case type r =>
    unfold respondAt at h
    dsimp only at h
    split at h
    · cases h
      exact .inr (.inr ⟨_, _, rfl, rfl⟩)
    split at h
    · cases h
      exact .inr (.inr ⟨_, _, rfl, rfl⟩)
    split at h
    · cases h
    split at h
    · rename_i hkind
      obtain ⟨rfl, -⟩ := Response.take.inj h
      exact .inr (.inl ⟨hkind, fun hr => List.mem_cons_of_mem _ (typeRole_keyword hr hkind)⟩)
    · cases h
  case qualified =>
    unfold respondAt at h
    dsimp only at h
    split at h
    · cases h
      exact .inr (.inr ⟨_, _, rfl, rfl⟩)
    split at h
    · rename_i hword
      obtain ⟨hkind, hnamespace⟩ := Lexeme.isWord_iff.1 (Bool.and_eq_true_iff.1 hword).1
      exact .inr (.inl ⟨hkind, fun _ => hnamespace ▸ List.mem_cons_self⟩)
    split at h
    · rename_i hkind
      cases h
      exact .inr (.inl ⟨hkind, nofun⟩)
    · cases h
  case moreType | segments =>
    unfold respondAt at h
    dsimp only at h
    repeat' split at h
    all_goals cases h
    all_goals exact .inr (.inr ⟨_, _, rfl, rfl⟩)
  case anyWord r =>
    unfold respondAt at h
    dsimp only at h
    split at h
    · rename_i hkind
      cases h
      obtain rfl : role = .name := by simpa [isOfType] using hg
      exact .inr (.inl ⟨hkind, nofun⟩)
    · cases h
  case mark m =>
    obtain rfl : m = ")" := by simpa [isOfType] using hg
    unfold respondAt at h
    dsimp only at h
    split at h
    · rename_i hmark
      exact .inl hmark
    · cases h
  all_goals cases hg

end Goal

end PhpRename.Php
