import PhpRename.Php.Source

/-!
# Scopes of a file that has been read

Scopes are numbered in the order in which they are opened, and none is ever closed for good: the
reader only goes back to one that it has left before. So every token stands in a scope of the list,
and the first one is that of the file itself.

* `Goal.respondAt_usual`: the words and marks that the grammar itself demands.
* `Goal.respondAt_asks`: it never asks to go back to a scope.
* `Reader.Valid`: the scopes that a reader knows of are on its list.
* `Reader.scopes_run`: so are the scopes of all its tokens.
-/

namespace PhpRename.Php

/-! ## What the grammar asks for -/

/-- All goals of the response are such goals. -/
def Response.all (p : Goal → Bool) : Response → Bool
  | .take _ goals | .become goals => goals.all p
  | .opens _ inner after => inner.all p && after.all p
  | .miss => true

theorem Response.all_mono {p q : Goal → Bool} (hpq : ∀ g, p g = true → q g = true) {r : Response}
    (h : r.all p = true) : r.all q = true := by
  have hgoals {goals : List Goal} (h : goals.all p = true) : goals.all q = true :=
    List.all_eq_true.2 fun g hg => hpq g (List.all_eq_true.1 h g hg)
  cases r with
  | take role goals => exact hgoals h
  | become goals => exact hgoals h
  | opens opening inner after =>
    obtain ⟨hinner, hafter⟩ := Bool.and_eq_true_iff.1 h
    exact Bool.and_eq_true_iff.2 ⟨hgoals hinner, hgoals hafter⟩
  | miss => rfl

namespace Goal

/-- The goal asks for something to be read, and not for a scope to be left. -/
def asks : Goal → Bool
  | leave _ => false
  | _ => true

end Goal

/-- All goals of the response ask for something to be read. -/
def Response.asks : Response → Bool
  | .take _ goals => goals.all Goal.asks
  | .become goals => goals.all Goal.asks
  | .opens _ inner after => inner.all Goal.asks && after.all Goal.asks
  | .miss => true

namespace Goal

/-- The words and the marks that the grammar itself demands are a few, and none of the words is
demanded as any keyword. -/
def isUsual : Goal → Bool
  | leave _ => false
  | mark m | optMark m => m ≠ "::"
  | word w => ["function", "fn", "as"].contains w
  | optWord w => w = "static"
  | anyWord role => role ≠ .keyword
  | _ => true

theorem declaration_usual (look : List Lexeme) : (declaration look).all isUsual = true := by
  unfold declaration
  repeat' split
  all_goals rfl

theorem anonymous?_usual {look : List Lexeme} {r : Response} (h : anonymous? look = some r) :
    r.all isUsual = true := by
  unfold anonymous? at h
  extract_lets _ after at h
  split at h
  · cases h; rfl
  split at h
  · cases h; rfl
  · cases h

theorem wordStatement_usual (l : Lexeme) (rest : List Lexeme) :
    (wordStatement l rest).all isUsual = true := by
  unfold wordStatement
  split
  all_goals first | rfl | exact declaration_usual _ | (split <;> rfl)

theorem wordOperand_usual (l : Lexeme) (rest : List Lexeme) :
    (wordOperand l rest).all isUsual = true := by
  unfold wordOperand
  repeat' split
  all_goals rfl

theorem markOperand_usual (m : String) (rest : List Lexeme) :
    (markOperand m rest).all isUsual = true := by
  unfold markOperand
  repeat' split
  all_goals rfl

theorem wordTail_usual (w : String) : (wordTail w).all isUsual = true := by
  unfold wordTail
  split <;> rfl

theorem markTail_usual (m : String) : (markTail m).all isUsual = true := by
  unfold markTail
  repeat' split
  all_goals rfl

theorem operand_usual (l : Lexeme) (rest : List Lexeme) : (operand l rest).all isUsual = true := by
  unfold operand
  split
  · rename_i h; exact anonymous?_usual h
  split
  · exact wordOperand_usual l rest
  · exact markOperand_usual l.text rest
  · rfl
  · rfl

/-- **What the grammar demands is usual.** -/
theorem respondAt_usual (g : Goal) (l : Lexeme) (rest : List Lexeme) :
    (g.respondAt l rest).all isUsual = true := by
  cases g
  case expr => exact operand_usual l rest
  case statement =>
    unfold respondAt
    dsimp only
    split
    · rfl
    · exact wordStatement_usual l rest
    · repeat' split
      all_goals first | rfl | exact declaration_usual _
    · rfl
  case tail =>
    unfold respondAt
    dsimp only
    split
    · exact wordTail_usual l.keyword
    · exact markTail_usual l.text
    · rfl
  -- every other goal answers with goals that are written out
  all_goals
    unfold respondAt
    dsimp only
    repeat' split
  all_goals rfl

/-- **The grammar never asks to go back to a scope.** -/
theorem respondAt_asks (g : Goal) (l : Lexeme) (rest : List Lexeme) :
    (g.respondAt l rest).asks = true := by
  have hasks : (g.respondAt l rest).all asks = true := by
    refine Response.all_mono (fun g hg => ?_) (respondAt_usual g l rest)
    cases g <;> first | rfl | cases hg
  cases hr : g.respondAt l rest <;> exact hr ▸ hasks

theorem not_leave_mem {goals : List Goal} (h : goals.all asks = true) (n : Nat) :
    .leave n ∉ goals := by
  intro hmem
  have := List.all_eq_true.1 h _ hmem
  cases this

end Goal

/-! ## The reader -/

namespace Reader

/-- The scopes that the reader knows of are on its list: the one that is open, and those to go back
to. -/
structure Valid (st : Reader) : Prop where
  scope : st.scope < st.scopes.length
  leave : ∀ n, .leave n ∈ st.goals → n < st.scopes.length

theorem valid_start : start.Valid :=
  ⟨Nat.zero_lt_one, nofun⟩

variable {st : Reader} {g : Goal} {goals inner more after : List Goal}

theorem Valid.leave_tail (h : st.Valid) (hgoals : st.goals = g :: goals) {n : Nat}
    (hn : .leave n ∈ goals) : n < st.scopes.length :=
  h.leave n (hgoals ▸ List.mem_cons_of_mem g hn)

theorem Valid.unsound (h : st.Valid) : ({ st with sound := false } : Reader).Valid :=
  ⟨h.scope, h.leave⟩

/-- A goal of a valid reader may be replaced by goals that ask for something. -/
theorem Valid.replace (h : st.Valid) (hgoals : st.goals = g :: goals)
    (hmore : more.all Goal.asks = true) :
    ({ st with goals := more ++ goals } : Reader).Valid := by
  refine ⟨h.scope, fun n hn => ?_⟩
  rcases List.mem_append.1 hn with hn | hn
  · exact absurd hn (Goal.not_leave_mem hmore n)
  · exact h.leave_tail hgoals hn

/-- A scope may be opened in a valid reader, to be left for the one that is open now. -/
theorem Valid.open (h : st.Valid) (hgoals : st.goals = g :: goals)
    (hinner : inner.all Goal.asks = true) (hafter : after.all Goal.asks = true) (scope : Scope) :
    ({ st with
      goals := inner ++ .leave st.scope :: (after ++ goals)
      scope := st.scopes.length
      scopes := st.scopes ++ [scope] } : Reader).Valid := by
  have hlength : (st.scopes ++ [scope]).length = st.scopes.length + 1 := List.length_append
  refine ⟨by dsimp only; omega, fun n hn => ?_⟩
  have hlt : n < st.scopes.length := by
    rcases List.mem_append.1 hn with hn | hn
    · exact absurd hn (Goal.not_leave_mem hinner n)
    rcases List.mem_cons.1 hn with hn | hn
    · exact Goal.leave.inj hn ▸ h.scope
    rcases List.mem_append.1 hn with hn | hn
    · exact absurd hn (Goal.not_leave_mem hafter n)
    · exact h.leave_tail hgoals hn
  dsimp only
  omega

/-- What is known once a lexeme has met its goals: the reader is valid, no scope is forgotten, and
the scope of the lexeme is on the list. The scope around it is `outer`, or else one that was on the
list before. -/
structure Settled.Follows (m : Settled) (st : Reader) (outer : Option Nat) : Prop where
  valid : m.next.Valid
  grown : st.scopes <+: m.next.scopes
  scope : m.scope < m.next.scopes.length
  given : ∀ n, outer = some n → m.outer = n
  around : outer = none → m.outer < st.scopes.length

/-- A lexeme that opens nothing stands in the scope that is open. -/
theorem Valid.stay {next : Reader} (h : st.Valid) (hnext : next.Valid)
    (hscopes : next.scopes = st.scopes) (role : Role) (outer : Option Nat) :
    (⟨role, st.scope, outer.getD st.scope, next⟩ : Settled).Follows st outer where
  valid := hnext
  grown := hscopes ▸ List.prefix_rfl
  scope := hscopes ▸ h.scope
  given := fun n hn => by rw [hn]; rfl
  around := fun hn => by rw [hn]; exact h.scope

theorem settle_follows (l : Lexeme) (rest : List Lexeme) (steps : Nat) (h : st.Valid)
    (outer : Option Nat) : (settle l rest steps st outer).Follows st outer := by
  fun_induction settle l rest steps st outer with
  | case1 st outer => exact h.stay h.unsound rfl (strayRole l) outer
  | case2 steps st outer hnil => exact h.stay h.unsound rfl (strayRole l) outer
  | case3 steps st outer n goals hgoals ih =>
    have hn : n < st.scopes.length := h.leave n (hgoals ▸ List.mem_cons_self)
    obtain ⟨hvalid, hgrown, hscope, hgiven, haround⟩ := ih ⟨hn, fun _ hm => h.leave_tail hgoals hm⟩
    exact ⟨hvalid, hgrown, hscope, hgiven, haround⟩
  | case4 steps st outer g goals _ hgoals role more hr =>
    have hmore : (Response.take role more).asks = true := hr ▸ Goal.respondAt_asks g l rest
    exact h.stay (h.replace hgoals hmore) rfl role outer
  | case5 steps st outer g goals _ hgoals more hr ih =>
    have hmore : (Response.become more).asks = true := hr ▸ Goal.respondAt_asks g l rest
    obtain ⟨hvalid, hgrown, hscope, hgiven, haround⟩ := ih (h.replace hgoals hmore)
    exact ⟨hvalid, hgrown, hscope, hgiven, haround⟩
  | case6 steps st outer g goals _ hgoals hr ih =>
    obtain ⟨hvalid, hgrown, hscope, hgiven, haround⟩ :=
      ih ⟨h.scope, fun _ hm => h.leave_tail hgoals hm⟩
    exact ⟨hvalid, hgrown, hscope, hgiven, haround⟩
  | case7 steps st outer g goals _ hgoals opening inner after hr current ih =>
    have hasks : (Response.opens opening inner after).asks = true :=
      hr ▸ Goal.respondAt_asks g l rest
    obtain ⟨hinner, hafter⟩ := Bool.and_eq_true_iff.1 hasks
    obtain ⟨hvalid, hgrown, hscope, hgiven, -⟩ := ih (h.open hgoals hinner hafter _)
    -- from here on the scope around the lexeme is given: the one that was open
    have houter := hgiven _ rfl
    refine ⟨hvalid, (List.prefix_append ..).trans hgrown, hscope, fun n hn => ?_, fun hn => ?_⟩
    · rw [houter, hn]; rfl
    · rw [houter, hn]; exact h.scope

theorem meet_follows (h : st.Valid) (l : Lexeme) (rest : List Lexeme) :
    (st.meet l rest).Follows st none :=
  settle_follows l rest st.steps h none

theorem silentScope_lt (h : st.Valid) (look : List Lexeme) :
    st.silentScope look < st.scopes.length := by
  unfold silentScope
  split
  · exact (meet_follows h fileEnd []).around rfl
  · exact (meet_follows h _ _).around rfl

/-- **The scopes of all tokens are on the list**, which only grows. -/
theorem scopes_run (h : st.Valid) (look ls : List Lexeme) :
    st.scopes <+: (st.run look ls).2.scopes ∧
      ∀ t ∈ (st.run look ls).1, t.scope < (st.run look ls).2.scopes.length := by
  induction ls generalizing st look with
  | nil => exact ⟨List.prefix_rfl, nofun⟩
  | cons l rest ih =>
    rw [run]
    split
    · exact ih h look
    split
    · obtain ⟨hgrown, hscopes⟩ := ih h look
      have hsilent := silentScope_lt h look
      have hle := hgrown.length_le
      refine ⟨hgrown, List.forall_mem_cons.2 ⟨?_, hscopes⟩⟩
      exact Nat.lt_of_lt_of_le hsilent hle
    · obtain ⟨hnext, hmet, hscope, -, -⟩ := meet_follows h l look.tail
      obtain ⟨hgrown, hscopes⟩ := ih hnext look.tail
      refine ⟨hmet.trans hgrown, List.forall_mem_cons.2 ⟨?_, hscopes⟩⟩
      exact Nat.lt_of_lt_of_le hscope hgrown.length_le

end Reader

end PhpRename.Php
