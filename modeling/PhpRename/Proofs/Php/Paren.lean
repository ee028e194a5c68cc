import PhpRename.Proofs.Php.Declared

/-!
# Open parentheses

The parentheses that are open at a site are found from the tokens before it: each closing one ends
the innermost of them. What stands between backticks is text, and its parentheses count for nothing.
The goals of the reader keep account of the same parentheses: those that are still to be closed are
the open ones, and where the goals for a parameter are left, the innermost one has been opened for
parameters, or behind `catch`.

* `Site.paren?`: the innermost open parenthesis.
* `Goal.respondAt_laid`: a goal that opens a parenthesis asks for the one that closes it.
* `Nested`: what the goals say of the parentheses that are open.
* `Nested.answered`, `Nested.taken`: each step keeps it.
* `Stage.Reached.nested`: so it holds throughout a file.
* `Site.paren_of_binder`: the parenthesis around a parameter, or around what is caught.
-/

namespace PhpRename.Php

/-! ## Parentheses among the tokens -/

/-- The goal is for text between backticks. -/
def Goal.isText : Goal → Bool
  | shell | shellIndex => true
  | _ => false

namespace Site

/-- The token is part of what stands between backticks. -/
def isText (s : Site) : Bool :=
  s.place?.any (·.goal.isText)

/-- The parentheses that are open behind the site, for those that are open in front of it. -/
def openBehind (s : Site) (outer : List Site) : List Site :=
  if s.isText then outer
  else if s.token.isPunct "(" then s :: outer
  else if s.token.isPunct ")" then outer.tail
  else outer

theorem openBehind_of_kind {s : Site} (h : s.token.kind ≠ .punct) (outer : List Site) :
    s.openBehind outer = outer := by
  simp [openBehind, Token.isPunct, h]

/-- The parentheses that are open between tokens of a file, the innermost one first. -/
def parens (source : Source) (after : List Token) : List Token → List Site
  | [] => []
  | t :: before =>
    openBehind ⟨source, before, t, after⟩ (parens source (t :: after) before)

/-- The innermost parenthesis that is open at the site. -/
def paren? (s : Site) : Option Site :=
  (parens s.source (s.token :: s.after) s.before).head?

/-- The parenthesis opens a `catch` clause. -/
def opensCatch (p : Site) : Bool :=
  p.prev?.any (·.isKeyword "catch")

/-- The tokens, without the first one if it is such a token. -/
def skip (such : Token → Bool) : List Token → List Token
  | [] => []
  | t :: past => if such t then past else t :: past

/-- The parenthesis opens the parameters of a function: the keyword stands before it, maybe with the
mark for a reference and a name in between. -/
def opensParameters (p : Site) : Bool :=
  let front := skip (·.isPunct "&") (skip (·.kind = .name) (code p.before))
  front.head?.any fun t => t.isKeyword "function" || t.isKeyword "fn"

/-- The parenthesis opens the parameters of a property hook. -/
def opensHook (p : Site) : Bool :=
  p.place?.any (·.goal = .optParameters)

/-- Variables may be declared within the parenthesis. -/
def opensHints (p : Site) : Bool :=
  p.opensCatch || p.opensParameters || p.opensHook

end Site

/-! ## Parentheses that goals ask for -/

namespace Goal

/-- The goal is for parameters, or for a variable that may be declared. -/
def binds : Goal → Bool
  | optVariable | parameters | moreParameters => true
  | _ => false

/-- The goal is neither for parameters nor for a parenthesis that is demanded. -/
def isPlain : Goal → Bool
  | mark m | optMark m => m ≠ "(" && m ≠ ")"
  | optParameters => false
  | g => !g.binds

/-- The goals ask for `depth` parentheses to be closed, besides those that they open. -/
def laid (depth : Nat) : List Goal → Bool
  | [] => depth = 0
  | mark m :: goals =>
    if m = "(" then laid (depth + 1) goals
    else if m = ")" then 0 < depth && laid (depth - 1) goals
    else laid depth goals
  | optParameters :: goals => laid depth goals
  | g :: goals => g.isPlain && laid depth goals

/-- What is left of a `catch` clause behind the keyword. -/
def catchParts : List Goal :=
  [mark "(", type false, optVariable, mark ")"]

end Goal

/-- The goals ask for all parentheses to be closed that they open, and for `depth` more where a
lexeme is taken. -/
def Response.laid (depth : Nat) : Response → Bool
  | .take _ goals => Goal.laid depth goals
  | .become goals => Goal.laid 0 goals
  | .opens _ _ after => Goal.laid 0 after
  | .miss => true

namespace Goal

variable {g : Goal} {l : Lexeme} {rest : List Lexeme} {gs more : List Goal} {role : Role}

theorem declaration_laid (depth : Nat) (look : List Lexeme) :
    (declaration look).laid depth = true := by
  unfold declaration
  repeat' split
  all_goals rfl

theorem anonymous?_laid (depth : Nat) {look : List Lexeme} {r : Response}
    (h : anonymous? look = some r) : r.laid depth = true := by
  unfold anonymous? at h
  extract_lets _ after at h
  repeat' split at h
  all_goals cases h
  all_goals rfl

theorem wordStatement_laid (l : Lexeme) (rest : List Lexeme) :
    (wordStatement l rest).laid 0 = true ∨
      l.isWord "catch" = true ∧ wordStatement l rest = .take .keyword catchParts := by
  by_cases hcatch : l.keyword = "catch"
  · right
    exact ⟨Lexeme.isWord_of_keyword hcatch (by decide), by simp only [wordStatement, hcatch]; rfl⟩
  left
  unfold wordStatement
  split
  all_goals first
    | rfl
    | exact declaration_laid 0 _
    | exact absurd (by assumption) hcatch
    | (split <;> rfl)

theorem operand_laid (hl : l.isMark "(" = false) (rest : List Lexeme) :
    (operand l rest).laid 0 = true := by
  unfold operand
  split
  · rename_i h
    exact anonymous?_laid 0 h
  split
  · unfold wordOperand
    repeat' split
    all_goals rfl
  · rename_i hkind
    have hparen : l.text ≠ "(" := by simpa [Lexeme.isMark, hkind] using hl
    unfold markOperand
    repeat' split
    all_goals first
      | rfl
      | exact absurd (by assumption) hparen
  · rfl
  · rfl

/-- **A goal that opens a parenthesis asks for the one that closes it**, and no other goal for a
parenthesis asks for more; the variable of a `catch` clause apart. -/
theorem respondAt_laid (hg : g.isPlain = true) (hl : l.isMark "(" = false) (rest : List Lexeme) :
    (g.respondAt l rest).laid 0 = true ∨
      l.isWord "catch" = true ∧ g.respondAt l rest = .take .keyword catchParts := by
  have hopen : atMark (l :: rest) "(" ≠ true := by simp [atMark, hl]
  cases g
  case expr => exact .inl (operand_laid hl rest)
  case statement =>
    unfold respondAt
    dsimp only
    split
    · exact .inl rfl
    · exact wordStatement_laid l rest
    · repeat' split
      all_goals first | exact .inl rfl | exact .inl (declaration_laid 0 _)
    · exact .inl rfl
  case tail =>
    left
    unfold respondAt
    dsimp only
    split
    · unfold wordTail
      split <;> rfl
    · rename_i hkind
      have hparen : l.text ≠ "(" := by simpa [Lexeme.isMark, hkind] using hl
      unfold markTail
      repeat' split
      all_goals first
        | rfl
        | exact absurd (by assumption) hparen
    · rfl
  case optVariable | parameters | moreParameters | optParameters => cases hg
  -- every other goal answers with goals that are written out, or asks for the parenthesis itself
  all_goals
    left
    unfold respondAt
    dsimp only
    repeat' split
  all_goals first
    | rfl
    | exact absurd (by assumption) hopen

theorem operand_open (hl : l.isMark "(" = true) (rest : List Lexeme) :
    (operand l rest).laid 1 = true := by
  obtain ⟨hkind, htext⟩ := Lexeme.isMark_iff.1 hl
  obtain ⟨hmark, hword, hkeyword⟩ := Lexeme.of_isMark hl
  have hanonymous : anonymous? (l :: rest) = none := by
    simp [anonymous?, afterAttributes, atWord, hmark, hword]
  have hlower : lowercase "(" ≠ "yield from" := mt lowercase_eq_iff.1 (by decide)
  simp only [operand, hanonymous, hkind, htext, markOperand, hlower]
  repeat' split
  all_goals first
    | rfl
    | (exfalso; revert ‹_›; decide)

/-- **A goal that takes an opening parenthesis asks for the closing one**, unless it is text. -/
theorem respondAt_open (hg : g.isPlain = true) (hl : l.isMark "(" = true) (rest : List Lexeme) :
    (g.respondAt l rest).laid (if g.isText then 0 else 1) = true := by
  obtain ⟨hkind, htext⟩ := Lexeme.isMark_iff.1 hl
  obtain ⟨hmark, hword, hkeyword⟩ := Lexeme.of_isMark hl
  cases g
  case expr => exact operand_open hl rest
  case statement =>
    simp [respondAt, atMark, hmark, hkind, openBrace]
    rfl
  case tail =>
    simp [respondAt, hkind, htext, markTail, binaryMarks]
    rfl
  case mark m | optMark m =>
    simp only [isPlain, Bool.and_eq_true, decide_eq_true_eq] at hg
    simp [respondAt, atMark, hmark, hg.1.symm]
    rfl
  case optVariable | parameters | moreParameters | optParameters => cases hg
  -- what is left of the answer is computed from the lexeme
  all_goals
    simp only [respondAt, atMark, List.head?_cons, Option.any_some, hmark, hword, hkind, hkeyword]
    repeat' split
  all_goals first
    | rfl
    | simp_all [openBrace, modifierWords, isText]

/-- **A goal that is not text takes no closing parenthesis**, unless it demands it. -/
theorem respondAt_close (hg : g.isPlain = true) (hno : g.isText = false)
    (hl : l.isMark ")" = true) : g.respondAt l rest ≠ .take role more := by
  obtain ⟨hkind, htext⟩ := Lexeme.isMark_iff.1 hl
  obtain ⟨hmark, hword, hkeyword⟩ := Lexeme.of_isMark hl
  intro h
  cases g
  case expr =>
    have htake := operand_take h
    simp [hkind, htext, markOperand, closingMarks] at htake
  case statement => simp [respondAt, atMark, hmark, hkind, openBrace] at h
  case tail => simp [respondAt, hkind, htext, markTail, binaryMarks] at h
  case mark m | optMark m =>
    simp only [isPlain, Bool.and_eq_true, decide_eq_true_eq] at hg
    simp [respondAt, atMark, hmark, hg.2.symm] at h
  case optVariable | parameters | moreParameters | optParameters => cases hg
  all_goals
    simp only [respondAt, atMark, List.head?_cons, Option.any_some, hmark, hword, hkind,
      hkeyword] at h
    repeat' split at h
  all_goals first
    | (cases h; done)
    | simp_all [openBrace, modifierWords, isText]

end Goal

/-! ## Parentheses that are open, and goals -/

/-- The first token is such a token, behind tokens that are `past`. -/
def Behind (such : Token → Bool) (past : List Token → Prop) : List Token → Prop
  | [] => False
  | t :: before => such t = true ∧ past before

/-- The goals ask for the parentheses of the list to be closed, the innermost one first, and where
they are for parameters, or for a variable that may be declared, the innermost one is open for that.
`past` is what is known of the code tokens so far. -/
inductive Nested : (List Token → Prop) → List Site → List Goal → Prop
  | nil {past} : Nested past [] []
  | plain {past g ps gs} (plain : g.isPlain = true) (below : Nested (fun _ => True) ps gs) :
      Nested past ps (g :: gs)
  | binds {past g p ps gs} (binds : g.binds = true) (opens : p.opensHints = true)
      (below : Nested (fun _ => True) (p :: ps) gs) : Nested past (p :: ps) (g :: gs)
  | hook {past ps gs} (below : Nested (fun _ => True) ps gs) : Nested past ps (.optParameters :: gs)
  | open {past ps gs}
      (below : ∀ p : Site, past (Site.code p.before) → Nested (fun _ => True) (p :: ps) gs) :
      Nested past ps (.mark "(" :: gs)
  | close {past p ps gs} (below : Nested (fun _ => True) ps gs) :
      Nested past (p :: ps) (.mark ")" :: gs)
  | word {past w ps gs} (below : Nested (Behind (·.isKeyword w) past) ps gs) :
      Nested past ps (.word w :: gs)
  | reference {past ps gs} (without : Nested past ps gs)
      (below : Nested (Behind (·.isPunct "&") past) ps gs) : Nested past ps (.optMark "&" :: gs)
  | name {past ps gs} (below : Nested (Behind (·.kind = .name) past) ps gs) :
      Nested past ps (.anyWord .name :: gs)

namespace Nested

open Goal

variable {past past' : List Token → Prop} {p : Site} {ps qs : List Site} {g : Goal}
variable {gs more inner after : List Goal} {l : Lexeme} {rest : List Lexeme} {role : Role}

/-- The more is known of the code tokens so far, the better. -/
theorem mono (h : Nested past ps gs) (hpast : ∀ c, past' c → past c) : Nested past' ps gs := by
  have hbehind {such : Token → Bool} {past past' : List Token → Prop}
      (h : ∀ c, past' c → past c) : ∀ c, Behind such past' c → Behind such past c
    | [], hc => hc
    | _ :: _, hc => ⟨hc.1, h _ hc.2⟩
  induction h generalizing past' with
  | nil => exact .nil
  | plain hplain below => exact .plain hplain below
  | binds hbinds hopens below => exact .binds hbinds hopens below
  | hook below => exact .hook below
  | «open» below => exact .open fun p hp => below p (hpast _ hp)
  | close below => exact .close below
  | word _ ih => exact .word (ih (hbehind hpast))
  | reference _ _ ih ih' => exact .reference (ih hpast) (ih' (hbehind hpast))
  | name _ ih => exact .name (ih (hbehind hpast))

/-- Where nothing need be known of the code tokens, whatever is known will do. -/
theorem any (h : Nested (fun _ => True) ps gs) (past : List Token → Prop) : Nested past ps gs :=
  h.mono fun _ _ => trivial

/-- Goals may be put in front that ask for the parentheses `qs` to be closed. -/
theorem append (h : Nested (fun _ => True) ps gs) (more : List Goal) (qs : List Site)
    (hmore : laid qs.length more = true) : Nested (fun _ => True) (qs ++ ps) (more ++ gs) := by
  induction more generalizing qs with
  | nil =>
    obtain rfl : qs = [] := by simpa [laid] using hmore
    exact h
  | cons g more ih =>
    have hplain {g : Goal} (hg : g.isPlain = true) (hmore : laid qs.length more = true) :
        Nested (fun _ => True) (qs ++ ps) (g :: more ++ gs) :=
      .plain hg (ih qs hmore)
    cases g
    case mark m =>
      rw [laid] at hmore
      split at hmore
      · rename_i hm
        exact hm ▸ .open fun p _ => ih (p :: qs) hmore
      split at hmore
      · rename_i hm
        cases qs with
        | nil => cases hmore
        | cons p qs => exact hm ▸ .close (ih qs hmore)
      · rename_i hopen hclose
        exact hplain (by simp [isPlain, hopen, hclose]) hmore
    case optParameters => exact .hook (ih qs hmore)
    all_goals
      obtain ⟨hg, hmore⟩ := Bool.and_eq_true_iff.1 hmore
      exact hplain hg hmore

/-- The parentheses of a function stand behind its keyword. -/
theorem parameters (h : Nested (fun _ => True) ps gs)
    (hopens : ∀ p : Site, past (Site.code p.before) → p.opensParameters = true) :
    Nested past ps (.mark "(" :: .parameters :: .mark ")" :: gs) :=
  .open fun p hp => .binds rfl (by simp [Site.opensHints, hopens p hp]) (.close h)

theorem named (h : Nested (fun _ => True) ps gs) (past : List Token → Prop) : Nested past ps
    (.word "function" :: .optMark "&" :: .anyWord .name :: .mark "(" :: .parameters ::
      .mark ")" :: gs) := by
  -- without the mark for a reference, and with it
  refine .word (.reference (.name (h.parameters fun p hp => ?_))
    (.name (h.parameters fun p hp => ?_)))
  · generalize hcode : Site.code p.before = c at hp
    rcases c with _ | ⟨name, _ | ⟨fn, past⟩⟩
    · cases hp
    · cases hp.2
    · obtain ⟨hname, hfn, -⟩ := hp
      have hamp : fn.isPunct "&" = false := by
        simpa using Token.not_isPunct_of_isKeyword hfn
      simp_all [Site.opensParameters, Site.skip]
  · generalize hcode : Site.code p.before = c at hp
    rcases c with _ | ⟨name, _ | ⟨amp, _ | ⟨fn, past⟩⟩⟩
    · cases hp
    · cases hp.2
    · cases hp.2.2
    · obtain ⟨hname, hamp, hfn, -⟩ := hp
      simp_all [Site.opensParameters, Site.skip]

theorem unnamed {w : String} (hw : w = "function" ∨ w = "fn") (h : Nested (fun _ => True) ps gs)
    (past : List Token → Prop) : Nested past ps
      (.word w :: .optMark "&" :: .mark "(" :: .parameters :: .mark ")" :: gs) := by
  -- without the mark for a reference, and with it
  refine .word (.reference (h.parameters fun p hp => ?_) (h.parameters fun p hp => ?_))
  · generalize hcode : Site.code p.before = c at hp
    rcases c with _ | ⟨fn, past⟩
    · cases hp
    · obtain ⟨hfn, -⟩ := hp
      have hamp : fn.isPunct "&" = false := by
        simpa using Token.not_isPunct_of_isKeyword hfn
      have hname : fn.kind ≠ .name := by simp [Token.kind_of_isKeyword hfn]
      rcases hw with rfl | rfl <;> simp_all [Site.opensParameters, Site.skip]
  · generalize hcode : Site.code p.before = c at hp
    rcases c with _ | ⟨amp, _ | ⟨fn, past⟩⟩
    · cases hp
    · cases hp.2
    · obtain ⟨hamp, hfn, -⟩ := hp
      have hname : amp.kind ≠ .name := by simp [(Token.isPunct_iff.1 hamp).1]
      rcases hw with rfl | rfl <;> simp_all [Site.opensParameters, Site.skip]

/-- **It is kept where a scope opens.** -/
theorem opened {o : Opening} (h : Nested past ps (g :: gs))
    (ho : g.respondAt l rest = .opens o inner after) (n : Nat) :
    Nested past ps (inner ++ .leave n :: (after ++ gs)) := by
  have hopens := respondAt_opens ho
  -- the goals that open scopes are plain
  have hbelow : Nested (fun _ => True) ps gs := by
    cases h with
    | plain _ below => exact below
    | binds hbinds => cases hopens <;> cases hbinds
    | hook | «open» | close | word | reference | name => cases hopens
  have hleave (after : List Goal) (hafter : laid 0 after = true) :
      Nested (fun _ => True) ps (.leave n :: (after ++ gs)) :=
    .plain rfl (hbelow.append after [] hafter)
  refine any ?_ past
  cases hopens with
  | cls => exact (hleave [] rfl).append classParts [] rfl
  | function =>
    have hbody := (hleave [] rfl).append [.returnType, .body] [] rfl
    exact (hbody.named _).append [.attributes, .modifiers] [] rfl
  | method =>
    have hbody := (hleave [.members] rfl).append [.returnType, .body] [] rfl
    exact (hbody.named _).append [.attributes, .modifiers] [] rfl
  | closure =>
    have hbody := (hleave [.tail] rfl).append [.captures, .returnType, .block] [] rfl
    exact (unnamed (.inl rfl) hbody _).append [.attributes, .optWord "static"] [] rfl
  | arrow =>
    have hbody := (hleave [] rfl).append [.returnType, .mark "=>", .expr] [] rfl
    exact (unnamed (.inr rfl) hbody _).append [.attributes, .optWord "static"] [] rfl

/-- **It is kept where a goal stands for others.** -/
theorem answered (h : Nested past ps (g :: gs)) (ha : g.respondAt l rest = .become more) :
    Nested past ps (more ++ gs) := by
  cases h with
  | plain hplain below =>
    have hlaid : laid 0 more = true := by
      cases hl : l.isMark "(" with
      | true => simpa [ha, Response.laid] using respondAt_open hplain hl rest
      | false =>
        rcases respondAt_laid hplain hl rest with h | ⟨-, h⟩
        · simpa [ha, Response.laid] using h
        · rw [ha] at h
          cases h
    exact (below.append more [] hlaid).any past
  | @binds _ _ p ps _ hbinds hopens below =>
    refine any ?_ past
    cases g
    case optVariable | moreParameters =>
      simp only [respondAt] at ha
      split at ha <;> cases ha
      exact below
    case parameters =>
      simp only [respondAt] at ha
      split at ha <;> cases ha
      · exact below
      · -- one more parameter, within the same parenthesis
        have hmore : Nested (fun _ => True) (p :: ps) (.moreParameters :: gs) :=
          .binds rfl hopens below
        have hvariable : Nested (fun _ => True) (p :: ps)
            (.optVariable :: .optValue :: .optHooks :: .moreParameters :: gs) :=
          .binds rfl hopens (hmore.append [.optValue, .optHooks] [] rfl)
        exact hvariable.append [.attributes, .modifiers, .type false, .parameterMarks] [] rfl
    all_goals cases hbinds
  | hook below =>
    simp only [respondAt] at ha
    split at ha <;> cases ha
    exact below.any past
  | «open» | close | word | name =>
    simp only [respondAt] at ha
    split at ha <;> cases ha
  | reference without =>
    simp only [respondAt] at ha
    split at ha <;> cases ha
    exact without

/-- Behind the keyword of a `catch` clause its parenthesis is opened. -/
theorem caught (below : Nested (fun _ => True) ps gs)
    (hpast : ∀ c, past c → ∃ t before, c = t :: before ∧ t.isKeyword "catch" = true) :
    Nested past ps (catchParts ++ gs) := by
  refine .open fun p hp => .plain rfl (.binds rfl ?_ (.close below))
  obtain ⟨t, before, hcode, ht⟩ := hpast _ hp
  simp [Site.opensHints, Site.opensCatch, Site.prev?_eq_head?, hcode, ht]

section Taken

variable {f : Framed} {ls : List Lexeme} {scope : Nat}

theorem isPunct_eq (htoken : p.token = Reader.token l role scope) (m : String) :
    p.token.isPunct m = l.isMark m := by
  rw [htoken, Bool.eq_iff_iff, Reader.isPunct_iff_isMark]

theorem openBehind_text (htext : p.isText = true) (ps : List Site) : p.openBehind ps = ps := by
  rw [Site.openBehind, if_pos htext]

theorem openBehind_open (hno : p.isText = false) (htoken : p.token = Reader.token l role scope)
    (ps : List Site) (hl : l.isMark "(" = true) : p.openBehind ps = p :: ps := by
  simp [Site.openBehind, hno, isPunct_eq htoken, hl]

theorem openBehind_close (hno : p.isText = false) (htoken : p.token = Reader.token l role scope)
    (ps : List Site) (hl : l.isMark ")" = true) : p.openBehind ps = ps.tail := by
  simp [Site.openBehind, hno, isPunct_eq htoken, (Lexeme.of_isMark hl).1]

/-- What is no parenthesis leaves them as they are. -/
theorem openBehind_eq (htoken : p.token = Reader.token l role scope) (ps : List Site)
    (hopen : l.isMark "(" = false) (hclose : l.isMark ")" = false) : p.openBehind ps = ps := by
  simp [Site.openBehind, isPunct_eq htoken, hopen, hclose]

theorem openBehind_word (htoken : p.token = Reader.token l role scope) (ps : List Site)
    (hl : l.kind = .word) : p.openBehind ps = ps :=
  openBehind_eq htoken ps (Lexeme.isMark_of_word hl _) (Lexeme.isMark_of_word hl _)

/-- **It is kept where a plain goal takes a lexeme**, which stands at the site `p`. -/
theorem taken_plain (hplain : g.isPlain = true) (below : Nested (fun _ => True) ps gs)
    (ht : g.respondAt l rest = .take role more) (htext : p.isText = g.isText)
    (htoken : p.token = Reader.token l role scope) (hword : l.kind = .word → inCode ls = true) :
    Nested (fun c => inCode ls = true → c = p.token :: Site.code p.before) (p.openBehind ps)
      (more ++ gs) := by
  cases hopen : l.isMark "(" with
  | true =>
    have hlaid := respondAt_open hplain hopen rest
    rw [ht, ← htext] at hlaid
    refine any ?_ _
    cases htext' : p.isText with
    | true =>
      -- a parenthesis in text is none
      rw [openBehind_text htext']
      rw [htext', if_pos rfl] at hlaid
      exact below.append more [] hlaid
    | false =>
      rw [openBehind_open htext' htoken ps hopen]
      rw [htext', if_neg Bool.false_ne_true] at hlaid
      exact below.append more [p] hlaid
  | false =>
    have hsame : p.openBehind ps = ps := by
      cases hclose : l.isMark ")" with
      | false => exact openBehind_eq htoken ps hopen hclose
      | true =>
        cases htext' : p.isText with
        | true => exact openBehind_text htext' ps
        | false => exact absurd ht (respondAt_close hplain (htext.symm.trans htext') hclose)
    rw [hsame]
    rcases respondAt_laid hplain hopen rest with hlaid | ⟨hcatch, hparts⟩
    · rw [ht] at hlaid
      exact (below.append more [] hlaid).any _
    · -- the keyword is the last code token now
      rw [ht] at hparts
      cases hparts
      refine below.caught fun c hc => ⟨_, _, hc (hword (Lexeme.isWord_iff.1 hcatch).1), ?_⟩
      rw [htoken]
      exact Reader.isKeyword_of_isWord rfl hcatch

/-- **It is kept where a lexeme is taken**, which stands at the site `p`. -/
theorem taken
    (h : Nested (fun c => inCode (l :: ls) = true → c = Site.code p.before) ps (f.goal :: gs))
    (ht : f.goal.respondAt l rest = .take role more) (hplace : p.place? = some f)
    (htoken : p.token = Reader.token l role scope) (hword : l.kind = .word → inCode ls = true) :
    Nested (fun c => inCode ls = true → c = p.token :: Site.code p.before) (p.openBehind ps)
      (more ++ gs) := by
  have htext : p.isText = f.goal.isText := by rw [Site.isText, hplace, Option.any_some]
  obtain ⟨g, frames⟩ := f
  dsimp only at h ht htext
  cases h with
  | plain hplain below => exact taken_plain hplain below ht htext htoken hword
  | @binds _ _ q ps _ hbinds hopens below =>
    refine any ?_ _
    cases g
    case optVariable =>
      simp only [respondAt] at ht
      split at ht <;> cases ht
      rename_i hl
      rw [openBehind_eq htoken _ (by simp [Lexeme.isMark, hl]) (by simp [Lexeme.isMark, hl])]
      exact below
    case parameters =>
      simp only [respondAt] at ht
      split at ht <;> cases ht
    case moreParameters =>
      simp only [respondAt] at ht
      split at ht <;> cases ht
      rename_i hl
      have hmark := (Lexeme.of_isMark hl).1
      rw [openBehind_eq htoken _ (by simp [hmark]) (by simp [hmark])]
      exact .binds rfl hopens below
    all_goals cases hbinds
  | hook below =>
    simp only [respondAt] at ht
    split at ht <;> cases ht
    rename_i hl
    have hopens : p.opensHints = true := by simp [Site.opensHints, Site.opensHook, hplace]
    rw [openBehind_open htext htoken ps hl]
    exact .binds rfl hopens (.close below)
  | «open» below =>
    simp only [respondAt] at ht
    split at ht <;> cases ht
    rename_i hl
    rw [openBehind_open htext htoken ps hl]
    exact (below p fun _ => rfl).any _
  | @close _ q ps _ below =>
    simp only [respondAt] at ht
    split at ht <;> cases ht
    rename_i hl
    rw [openBehind_close htext htoken _ hl]
    exact below.any _
  | word below =>
    simp only [respondAt] at ht
    split at ht <;> cases ht
    rename_i hl
    have hkind := (Lexeme.isWord_iff.1 hl).1
    rw [openBehind_word htoken ps hkind]
    refine below.mono fun c hc => ?_
    rw [hc (hword hkind), htoken]
    exact ⟨Reader.isKeyword_of_isWord rfl hl, fun _ => rfl⟩
  | reference without below =>
    simp only [respondAt] at ht
    split at ht <;> cases ht
    rename_i hl
    have hmark := (Lexeme.of_isMark hl).1
    rw [openBehind_eq htoken _ (by simp [hmark]) (by simp [hmark])]
    cases hcode : inCode (l :: ls) with
    | true =>
      have hls : inCode ls = true := by
        simpa [inCode, (Lexeme.isMark_iff.1 hl).1] using hcode
      refine below.mono fun c hc => ?_
      rw [hc hls]
      exact ⟨(isPunct_eq htoken "&").trans hl, fun _ => rfl⟩
    | false =>
      -- nothing was known of what comes before the mark
      exact without.mono fun c _ h => absurd h (by simp [hcode])
  | name below =>
    simp only [respondAt] at ht
    split at ht <;> cases ht
    rename_i hl
    rw [openBehind_word htoken ps hl]
    refine below.mono fun c hc => ?_
    rw [hc (hword hl), htoken]
    exact ⟨by simp [Reader.token, Reader.classify, hl], fun _ => rfl⟩

end Taken

end Nested

namespace Framed

variable {l : Lexeme} {rest : List Lexeme} {fs fs' : List Framed} {f : Framed} {role : Role}

theorem map_goal_children (f : Framed) (more : List Goal) (below : List Framed) :
    (more.map f.child ++ below).map (·.goal) = more ++ below.map (·.goal) := by
  simp [Function.comp_def]

/-- **It is kept until a goal takes the lexeme.** -/
theorem Meets.nested {past : List Token → Prop} {ps : List Site} (h : Meets l rest fs role f fs')
    (hn : Nested past ps (fs.map (·.goal))) :
    ∃ more below, f.goal.respondAt l rest = .take role more ∧ fs' = more.map f.child ++ below ∧
      Nested past ps (f.goal :: below.map (·.goal)) := by
  induction h with
  | take answer => exact ⟨_, _, answer, rfl, hn⟩
  | become answer _ ih => exact ih (by rw [map_goal_children]; exact hn.answered answer)
  | @opens g fs role f fs' o inner after answer _ ih =>
    have hopened : (g.opened o inner after ++ fs).map (·.goal) =
        inner ++ .leave 0 :: (after ++ fs.map (·.goal)) := by
      simp [opened, Function.comp_def]
    exact ih (by rw [hopened]; exact hn.opened answer 0)

end Framed

/-! ## Parentheses in a file -/

namespace Stage

open Reader

variable {content : List Char} {g : Stage} {source : Source}

/-- **The goals of a file keep account of its parentheses.** -/
theorem Reached.nested (hp : parses content = true) (hsource : source.content.toList = content)
    (h : Reached content g) (after : List Token) :
    Nested (fun c => inCode g.rest = true → c = Site.code g.before)
      (Site.parens source after g.before) (g.stack.map (·.goal)) := by
  -- what is known of the code tokens is kept as long as code comes next
  induction h generalizing after with
  | start => exact .plain rfl .nil
  | @blank before st fs l ls _ kind ih =>
    exact (ih after).mono fun c hc h => hc (by simpa [inCode, kind] using h)
  | @silent before st fs l ls here kind silent ih =>
    generalize htoken : token l .plain (st.silentScope (Php.spoken ls)) = t
    have hnested := ih (t :: after)
    rcases token_of_silent kind silent .plain (st.silentScope (Php.spoken ls)) with
      ⟨hkind, ht⟩ | ⟨hkind, ht⟩
    · -- a tag, or the text between two, does not stand in code
      rw [Site.parens, Site.openBehind_of_kind (by simp [← htoken, ht])]
      refine hnested.mono fun c _ hcode => ?_
      rcases hkind with hkind | hkind <;> simp [inCode, hkind] at hcode
    · -- a comment is not among the code tokens
      have hpunct : t.kind ≠ .punct := fun hp => by simp [htoken, Token.isComment, hp] at ht
      rw [Site.parens, Site.openBehind_of_kind hpunct]
      refine hnested.mono fun c hc hcode => ?_
      rw [hc (by simpa [inCode, hkind] using hcode), ← htoken, Site.code, Site.code,
        List.filter_cons_of_neg (by simp [ht])]
  | @spoken before st fs l ls here heard ih =>
    obtain ⟨f, fs', h⟩ := here.exists_heard hp rfl heard
    rw [show (Framed.meet _ _ _).2 = fs' from congrArg Prod.snd h.meet]
    generalize htoken : token l _ _ = t
    obtain ⟨more, below, hanswer, rfl, hnested⟩ := h.framed.meets.nested (ih (t :: after))
    have hplace : (⟨source, before, t, after⟩ : Site).place? = some f := by
      rw [Site.place?, hsource]
      exact congrArg Option.join h.place
    have htaken := hnested.taken hanswer hplace htoken.symm
      fun hl => inCode_of_word here.belongs.rest hl
    have hcode : Site.code (t :: before) = t :: Site.code before := by
      rw [Site.code, List.filter_cons_of_pos (by simp [← htoken, token_of_heard heard]), Site.code]
    dsimp only
    rw [f.map_goal_children, hcode]
    exact htaken

end Stage

namespace Site

open Stage

variable {s : Site} {path : Path} {content : String}

/-- The token is a variable that a parameter list or a `catch` clause may declare. -/
def isBinder (s : Site) : Bool :=
  s.place?.any (·.goal = .optVariable)

/-- **The innermost parenthesis around a parameter**, or around a caught exception, opens a `catch`
clause or a list of parameters. -/
theorem paren_of_binder (hp : parses content.toList = true)
    (hs : s ∈ all (Source.read path content)) (h : s.isBinder = true) :
    ∃ p, s.paren? = some p ∧ p.opensHints = true := by
  obtain ⟨f, hplace, hgoal⟩ := (Option.any_eq_true _ _).1 h
  rw [decide_eq_true_eq] at hgoal
  obtain ⟨g, l, ls, fs', hears⟩ := exists_hears_of_place hp hs hplace
  have hcontent : s.source.content.toList = content.toList := by rw [source_of_mem_all hs]; rfl
  have hreached := hears.heard.here.nested hp hcontent (s.token :: s.after)
  obtain ⟨more, below, -, -, hnested⟩ := hears.heard.framed.meets.nested hreached
  rw [hgoal, hears.before] at hnested
  rw [paren?]
  generalize parens s.source (s.token :: s.after) s.before = ps at hnested ⊢
  cases hnested with
  | plain hplain => cases hplain
  | binds _ hopens => exact ⟨_, rfl, hopens⟩

end Site

end PhpRename.Php
