import PhpRename.Php.ClassName
import PhpRename.Proofs.Php.Target

/-!
# Sites with the same code around them

Code is read without its comments: whatever is read by going to the nearest code, again and again,
depends on the code before a site and behind it alone.

* `Site.SameCode`: two sites have one token, and the same code around it.
* `SameCode.prevCode?`, `SameCode.nextCode?`: then so have the sites of the nearest code.
* `SameCode.target?_eq`: and both are the literal of the same include, or neither is one.
-/

namespace PhpRename.Php

open Site

/-- Two sites have one token, and but for comments they have the same tokens before and behind it.
Their files have one path and the same scopes. -/
structure Site.SameCode (s t : Site) : Prop where
  token : s.token = t.token
  before : code s.before = code t.before
  after : code s.after = code t.after
  path : s.path = t.path
  scopes : s.source.scopes = t.source.scopes

namespace Site

variable {s t front next : Site} {u : Token} {more : List Token}

/-! ## Going to the nearest code -/

/-- Two results are related if there is none on either side, or one on each. -/
theorem rel_cases {α β : Type*} {r : α → β → Prop} {a? : Option α} {b? : Option β}
    (h : Option.Rel r a? b?) :
    (a? = none ∧ b? = none) ∨ ∃ a b, a? = some a ∧ b? = some b ∧ r a b := by
  cases h with
  | none => exact .inl ⟨rfl, rfl⟩
  | some h => exact .inr ⟨_, _, rfl, rfl, h⟩

theorem bind_eq_of_rel {α β γ : Type*} {r : α → β → Prop} {a? : Option α} {b? : Option β}
    {f : α → Option γ} {g : β → Option γ} (h : Option.Rel r a? b?) (hfg : ∀ a b, r a b → f a = g b) :
    a?.bind f = b?.bind g := by
  rcases rel_cases h with ⟨rfl, rfl⟩ | ⟨a, b, rfl, rfl, hab⟩
  · rfl
  · exact hfg a b hab

/-- Behind the nearest code before a site stands the site itself. -/
theorem after_prevCode? (h : s.prevCode? = some front) :
    front.source = s.source ∧ code front.after = code (s.token :: s.after) := by
  have hwalk : ∀ before after, codeBefore s.source after before = some front →
      front.source = s.source ∧ code front.after = code after := by
    intro before
    induction before with
    | nil => exact fun _ h => nomatch h
    | cons t before ih =>
      intro after h
      rw [codeBefore] at h
      split at h
      · rename_i hc
        obtain ⟨hsource, hafter⟩ := ih _ h
        refine ⟨hsource, hafter.trans ?_⟩
        rw [code, List.filter_cons_of_neg (by simpa using hc)]
        rfl
      · cases h
        exact ⟨rfl, rfl⟩
  exact hwalk s.before _ h

/-- The nearest code behind a site is the first of the code tokens behind it, and has the site before
it. -/
theorem code_nextCode? (h : s.nextCode? = some next) :
    code s.after = next.token :: code next.after ∧ next.source = s.source ∧
      code next.before = code (s.token :: s.before) := by
  have hwalk : ∀ after before, codeAfter s.source before after = some next →
      code after = next.token :: code next.after ∧ next.source = s.source ∧
        code next.before = code before := by
    intro after
    induction after with
    | nil => exact fun _ h => nomatch h
    | cons t after ih =>
      intro before h
      rw [codeAfter] at h
      split at h
      · rename_i hc
        have hskip : ∀ tokens, code (t :: tokens) = code tokens := fun tokens =>
          List.filter_cons_of_neg (by simpa using hc)
        obtain ⟨hafter, hsource, hbefore⟩ := ih _ h
        exact ⟨(hskip after).trans hafter, hsource, hbefore.trans (hskip before)⟩
      · rename_i hc
        cases h
        exact ⟨List.filter_cons_of_pos (by simpa using hc), rfl, rfl⟩
  exact hwalk s.after _ h

theorem nextCode?_eq_none (h : s.nextCode? = none) : code s.after = [] := by
  have hnext := next?_eq_head? s
  rwa [next?, h, Option.map_none, eq_comm, List.head?_eq_none_iff] at hnext

namespace SameCode

theorem symm (h : SameCode s t) : SameCode t s :=
  ⟨h.token.symm, h.before.symm, h.after.symm, h.path.symm, h.scopes.symm⟩

theorem code_cons (h : s.token = t.token) {past past' : List Token} (hpast : code past = code past') :
    code (s.token :: past) = code (t.token :: past') := by
  rw [h, code, code, List.filter_cons, List.filter_cons]
  exact ite_congr rfl (fun _ => congrArg _ hpast) fun _ => hpast

/-- **The nearest code before the sites** is at sites with the same code around them. -/
theorem prevCode? (h : SameCode s t) : Option.Rel SameCode s.prevCode? t.prevCode? := by
  cases hs : s.prevCode? with
  | none =>
    have hnil := h.before.symm.trans (code_eq_nil hs)
    cases ht : t.prevCode? with
    | none => exact .none
    | some front => rw [code_before ht] at hnil; cases hnil
  | some front =>
    obtain ⟨front', ht, htoken, hbefore⟩ := exists_prevCode? (h.before.symm.trans (code_before hs))
    obtain ⟨hsource, hafter⟩ := after_prevCode? hs
    obtain ⟨hsource', hafter'⟩ := after_prevCode? ht
    rw [ht]
    refine .some ⟨htoken.symm, hbefore.symm, ?_, ?_, ?_⟩
    · rw [hafter, hafter', code_cons h.token h.after]
    · rw [Site.path, hsource, Site.path, hsource']; exact h.path
    · rw [hsource, hsource', h.scopes]

/-- **The nearest code behind the sites** is at sites with the same code around them. -/
theorem nextCode? (h : SameCode s t) : Option.Rel SameCode s.nextCode? t.nextCode? := by
  cases hs : s.nextCode? with
  | none =>
    have hnil := h.after.symm.trans (nextCode?_eq_none hs)
    cases ht : t.nextCode? with
    | none => exact .none
    | some next => rw [(code_nextCode? ht).1] at hnil; cases hnil
  | some next =>
    obtain ⟨hafter, hsource, hbefore⟩ := code_nextCode? hs
    cases ht : t.nextCode? with
    | none =>
      rw [h.after, nextCode?_eq_none ht] at hafter
      cases hafter
    | some next' =>
      obtain ⟨hafter', hsource', hbefore'⟩ := code_nextCode? ht
      rw [h.after, hafter'] at hafter
      obtain ⟨htoken, hrest⟩ := List.cons.inj hafter
      refine .some ⟨htoken.symm, ?_, hrest.symm, ?_, ?_⟩
      · rw [hbefore, hbefore', code_cons h.token h.before]
      · rw [Site.path, hsource, Site.path, hsource']; exact h.path
      · rw [hsource, hsource', h.scopes]

theorem prev?_eq (h : SameCode s t) : s.prev? = t.prev? := by
  rw [prev?_eq_head?, prev?_eq_head?, h.before]

theorem next?_eq (h : SameCode s t) : s.next? = t.next? := by
  rw [next?_eq_head?, next?_eq_head?, h.after]

theorem isCalled_eq (h : SameCode s t) : s.isCalled = t.isCalled := by
  rw [isCalled, isCalled, h.next?_eq]

/-! ## Surroundings -/

theorem scope_eq (h : SameCode s t) : s.scope = t.scope := by
  rw [Site.scope, Site.scope, Source.scopeOf, Source.scopeOf, h.scopes, h.token]

theorem cls?_eq (h : SameCode s t) : s.cls? = t.cls? := by
  rw [cls?, cls?, h.scope_eq]

theorem inClassBody_eq (h : SameCode s t) : s.inClassBody = t.inClassBody := by
  rw [inClassBody, inClassBody, h.scope_eq]

theorem varScope_eq (h : SameCode s t) : s.varScope = t.varScope := by
  rw [varScope, varScope, h.scope_eq, h.path]

theorem resolve?_eq (h : SameCode s t) (db : Symbols) (name : String) :
    s.resolve? db name = t.resolve? db name := by
  rw [resolve?, resolve?, h.cls?_eq]

/-! ## Includes -/

theorem argument (h : SameCode s t) {fromDir inParens : Bool} {behind : List Token}
    (hs : Argument s fromDir inParens behind) : Argument t fromDir inParens behind := by
  cases hs with
  | plain hfront hk hend =>
    rw [h.before] at hfront
    rw [h.after] at hend ⊢
    exact .plain hfront hk hend
  | inParens hfront ho hk hafter hc =>
    rw [h.before] at hfront
    rw [h.after] at hafter
    exact .inParens hfront ho hk hafter hc

theorem target?_of_eq_some (h : SameCode s t) {target : Target} (hs : s.target? = some target) :
    t.target? = some target := by
  obtain ⟨hliteral, hoffset⟩ := target?_eq_some hs
  obtain ⟨inParens, behind, hargument⟩ := argument_of_target? hs
  rw [h.token] at hliteral hoffset
  rw [(h.argument hargument).target?_eq hliteral, ← hoffset]

/-- **The sites are the literal of the same include**, or neither of them is one. -/
theorem target?_eq (h : SameCode s t) : s.target? = t.target? :=
  Option.ext fun _ => ⟨h.target?_of_eq_some, h.symm.target?_of_eq_some⟩

end SameCode

end Site

end PhpRename.Php
