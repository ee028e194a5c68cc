import PhpRename.Facts.Declarations
import PhpRename.Proofs.Php.Lowercase
import PhpRename.Proofs.Php.Site

/-!
# The headings of declarations

The heading of a class, an interface or an enumeration is read forwards from its keyword. Comments
may stand anywhere in it but inside a name.

What is known of it stops early in two places. A name that begins with `namespace` is not read as
one: the list that it stands in ends before it, and a clause behind that list is not found. And the
type of an enumeration hides the clause behind it.

* `Written.Reads`, `Names`, `Clause`: names, lists of names and clauses, with what is left of the
  tokens behind them.
* `Heading.Stands`: a heading stands at a site.
* `Heading.record`, `Heading.asWritten`: what is known of a declaration, and what its heading says.
* `Heading.declared_eq`: what is learnt where a heading stands.
-/

namespace PhpRename.Php

/-! ## Names -/

/-- A name as it is written in a heading: its last segment, and whether it is relative to the
namespace around it. -/
structure Written where
  relative : Bool
  last : String
deriving DecidableEq, Repr

/-- Segments with backslashes between them, up to the last one. -/
inductive Segments : List Token → String → List Token → Prop
  | last {t rest} (name : t.kind = .name)
      (ends : ∀ u ∈ rest.head?, u.kind ≠ .name ∧ u.isPunct "\\" = false) :
      Segments (t :: rest) t.text rest
  | more {t b tokens last rest} (name : t.kind = .name) (mark : b.isPunct "\\" = true)
      (segments : Segments tokens last rest) : Segments (t :: b :: tokens) last rest

/-- A name with its namespace, without comments in it. -/
inductive Written.Reads : List Token → Written → List Token → Prop
  | plain {tokens last rest} (segments : Segments tokens last rest) :
      Reads tokens ⟨false, last⟩ rest
  | rooted {b tokens last rest} (mark : b.isPunct "\\" = true)
      (segments : Segments tokens last rest) : Reads (b :: tokens) ⟨false, last⟩ rest
  | relative {k b tokens last rest} (word : k.isKeyword "namespace" = true)
      (text : lowercase k.text = "namespace") (mark : b.isPunct "\\" = true)
      (segments : Segments tokens last rest) : Reads (k :: b :: tokens) ⟨true, last⟩ rest

/-- What is left behind the comments at the front. -/
def fromCode (tokens : List Token) : List Token :=
  tokens.dropWhile (·.isComment)

/-- Names with commas between them. -/
inductive Names : List Token → List Written → List Token → Prop
  | one {tokens w rest} (reads : Written.Reads tokens w rest)
      (ends : ∀ u ∈ (fromCode rest).head?, u.isPunct "," = false) :
      Names tokens [w] (fromCode rest)
  | more {tokens w rest comma behind ws rest'} (reads : Written.Reads tokens w rest)
      (next : fromCode rest = comma :: behind) (mark : comma.isPunct "," = true)
      (names : Names (fromCode behind) ws rest') : Names tokens (w :: ws) rest'

/-- The names behind the keyword `w`, or nothing where it does not stand. -/
inductive Clause (w : String) : List Token → List Written → List Token → Prop
  | absent {tokens} (other : ∀ t ∈ tokens.head?, t.isKeyword w = false) : Clause w tokens [] tokens
  | names {k behind ws rest} (word : k.isKeyword w = true) (names : Names (fromCode behind) ws rest) :
      Clause w (k :: behind) ws rest

/-- The type behind the name of an enumeration, or nothing. -/
inductive Backing : Bool → List Token → List Token → Prop
  | absent {tokens} (other : ∀ t ∈ tokens.head?, t.isPunct ":" = false) : Backing false tokens tokens
  | type {colon behind t rest} (mark : colon.isPunct ":" = true)
      (next : fromCode behind = t :: rest) : Backing true (colon :: behind) (fromCode rest)

/-! ## Headings -/

/-- What a heading declares. -/
inductive Heading.Kind where
  | cls
  | interface
  | enumeration
deriving DecidableEq, Repr

/-- The word for what a heading declares. -/
def Heading.Kind.word : Heading.Kind → String
  | cls => "class"
  | interface => "interface"
  | enumeration => "enum"

/-- The heading of a declaration. -/
structure Heading where
  kind : Heading.Kind
  name : String
  extended : List Written
  /-- A type stands behind the name. -/
  backed : Bool
  implemented : List Written
deriving DecidableEq, Repr

namespace Heading

/-- Classes extend one class, interfaces implement nothing, enumerations extend nothing, and only
they have a type. -/
def isProper (h : Heading) : Bool :=
  match h.kind with
  | .cls => h.extended.length ≤ 1 && !h.backed
  | .interface => h.implemented.isEmpty && !h.backed
  | .enumeration => h.extended.isEmpty

/-- The heading stands at the site, from its keyword on up to the body. -/
structure Stands (h : Heading) (s : Site) : Prop where
  proper : h.isProper = true
  word : s.token.isKeyword h.kind.word = true
  parts : ∃ n behind typed implements body, fromCode s.after = n :: behind ∧ n.kind = .name ∧
    n.text = h.name ∧ Clause "extends" (fromCode behind) h.extended typed ∧
    Backing h.backed typed implements ∧ Clause "implements" implements h.implemented body ∧
    ∀ t ∈ body.head?, t.isPunct "\x7b" = true

/-- What the heading says of the declaration: its parent, if it is a class, and what it implements,
or, if it is an interface, what it extends. -/
def asWritten (h : Heading) (file : Path) : ClassDecl :=
  match h.kind with
  | .cls => ⟨h.name, h.extended.head?.map (·.last), h.implemented.map (·.last), file⟩
  | .interface => ⟨h.name, none, h.extended.map (·.last), file⟩
  | .enumeration => ⟨h.name, none, h.implemented.map (·.last), file⟩

/-- The last segments of names, up to the first one that is relative. -/
def known (names : List Written) : List String :=
  (names.takeWhile fun w => !w.relative).map (·.last)

/-- What is known of the declaration. -/
def record (h : Heading) (file : Path) : ClassDecl :=
  match h.kind with
  | .cls => ⟨h.name, (known h.extended).head?,
      if h.extended.any (·.relative) then [] else known h.implemented, file⟩
  | .interface => ⟨h.name, none, known h.extended, file⟩
  | .enumeration => ⟨h.name, none, if h.backed then [] else known h.implemented, file⟩

/-- The heading says everything without names that are relative, and without a type. -/
def isPlain (h : Heading) : Bool :=
  !h.backed && (h.extended ++ h.implemented).all fun w => !w.relative

theorem known_eq_map {names : List Written} (h : ∀ w ∈ names, w.relative = false) :
    known names = names.map (·.last) := by
  rw [known, List.takeWhile_eq_self_iff.2 fun w hw => by simp [h w hw]]

/-- **What is known of a declaration is what its heading says**, if that is plain. -/
theorem record_eq_asWritten {h : Heading} (hplain : h.isPlain = true) (file : Path) :
    h.record file = h.asWritten file := by
  simp only [isPlain, Bool.and_eq_true, Bool.not_eq_true', List.all_eq_true, List.mem_append] at hplain
  obtain ⟨hbacked, hnames⟩ := hplain
  have hextended := known_eq_map fun w hw => hnames w (.inl hw)
  have himplemented := known_eq_map fun w hw => hnames w (.inr hw)
  have hany : h.extended.any (·.relative) = false :=
    List.any_eq_false.2 fun w hw => by simp [hnames w (.inl hw)]
  cases hkind : h.kind with
  | cls => simp [record, asWritten, hkind, hextended, himplemented, hany]
  | interface => simp [record, asWritten, hkind, hextended]
  | enumeration => simp [record, asWritten, hkind, himplemented, hbacked]

end Heading

/-! ## Reading names -/

/-- The tokens from a site on. -/
def Site.tokensFrom : Option Site → List Token
  | none => []
  | some s => s.token :: s.after

section Reading

open Facts Site

variable {s start : Site} {tokens rest : List Token} {last : String} {w : Written}
  {ws : List Written} {k : String}

theorem tokensFrom_nextCode? (s : Site) : tokensFrom s.nextCode? = fromCode s.after := by
  have hwalk : ∀ after before, tokensFrom (codeAfter s.source before after) = fromCode after := by
    intro after
    induction after with
    | nil => exact fun _ => rfl
    | cons t after ih =>
      intro before
      rw [codeAfter, fromCode]
      cases hc : t.isComment with
      | true => rw [if_pos rfl, List.dropWhile_cons_of_pos hc]; exact ih _
      | false => rw [if_neg Bool.false_ne_true, List.dropWhile_cons_of_neg (by simp [hc])]; rfl
  exact hwalk s.after _

theorem length_fromCode_le (tokens : List Token) : (fromCode tokens).length ≤ tokens.length :=
  (List.dropWhile_suffix _).length_le

/-- Where tokens are left, there is a site. -/
theorem exists_of_tokensFrom {at_ : Option Site} {t : Token} (h : tokensFrom at_ = t :: rest) :
    ∃ s, at_ = some s ∧ s.token = t ∧ s.after = rest := by
  cases at_ with
  | none => cases h
  | some s =>
    obtain ⟨rfl, rfl⟩ := List.cons.inj h
    exact ⟨s, rfl, rfl, rfl⟩

theorem after_advance (s : Site) (n : ℕ) : (s.advance n).after = s.after.drop n := by
  induction n generalizing s with
  | zero => rfl
  | succ n ih =>
    rw [advance]
    split
    · rename_i hafter
      rw [hafter, List.drop_nil]
    · rename_i t after hafter
      rw [ih, hafter, List.drop_succ_cons]

theorem Segments.nameRun_eq (h : Segments tokens last rest) (name : Option String) :
    ∃ n, nameRun name tokens = (some last, n + 1) ∧ tokens.drop (n + 1) = rest := by
  induction h generalizing name with
  | @last t rest hname ends =>
    have hrest : nameRun (some t.text) rest = (some t.text, 0) := by
      cases rest with
      | nil => rfl
      | cons u rest =>
        obtain ⟨hu, hmark⟩ := ends u rfl
        simp [nameRun, hu, hmark]
    exact ⟨0, by simp [nameRun, hname, hrest], rfl⟩
  | @more t b tokens last rest hname mark _ ih =>
    obtain ⟨n, hrun, hdrop⟩ := ih (some t.text)
    have hb : b.kind ≠ .name := by simp [(Token.isPunct_iff.1 mark).1]
    exact ⟨n + 2, by simp [nameRun, hname, hb, mark, hrun], hdrop⟩

/-- A name that is not relative is read up to its end. -/
theorem Written.Reads.className?_eq (h : Written.Reads tokens w rest) (hw : w.relative = false)
    (hstart : start.token :: start.after = tokens) :
    ∃ last', start.className? = some (w.last, last') ∧ last'.after = rest := by
  have hread {n : ℕ} {last : String} (hrun : nameRun none tokens = (some last, n + 1))
      (hdrop : tokens.drop (n + 1) = rest) :
      ∃ last', start.className? = some (last, last') ∧ last'.after = rest := by
    refine ⟨start.advance n, ?_, ?_⟩
    · rw [className?, hstart, hrun]
      rfl
    · rw [after_advance, ← hdrop, ← hstart, List.drop_succ_cons]
  cases h with
  | plain segments =>
    obtain ⟨n, hrun, hdrop⟩ := segments.nameRun_eq none
    exact hread hrun hdrop
  | @rooted b tokens last rest mark segments =>
    obtain ⟨n, hrun, hdrop⟩ := segments.nameRun_eq none
    have hkind := (Token.isPunct_iff.1 mark).1
    refine hread (n := n + 1) ?_ hdrop
    simp [nameRun, hkind, Token.isRelativeClass, mark, hrun]
  | relative => cases hw

/-- A name that is relative is not read at all. -/
theorem Written.Reads.className?_eq_none (h : Written.Reads tokens w rest) (hw : w.relative = true)
    (hstart : start.token :: start.after = tokens) :
    start.className? = none ∧ start.token.isKeyword "namespace" = true := by
  cases h with
  | plain => cases hw
  | rooted => cases hw
  | @relative k b tokens last rest word text mark segments =>
    obtain ⟨rfl, -⟩ := List.cons.inj hstart
    have hkind := Token.kind_of_isKeyword word
    have hrelative : start.token.isRelativeClass = false := by
      simp [Token.isRelativeClass, isRelative, text]
    refine ⟨?_, word⟩
    rw [className?, nameRun]
    simp [hkind, hrelative, Token.isPunct]

theorem Segments.length_lt (h : Segments tokens last rest) : rest.length < tokens.length := by
  induction h with
  | last => exact Nat.lt_succ_self _
  | more _ _ _ ih => exact Nat.lt_succ_of_lt (Nat.lt_succ_of_lt ih)

theorem Written.Reads.length_lt (h : Written.Reads tokens w rest) : rest.length < tokens.length := by
  cases h with
  | plain segments => exact segments.length_lt
  | rooted _ segments => exact Nat.lt_succ_of_lt segments.length_lt
  | relative _ _ _ segments => exact Nat.lt_succ_of_lt (Nat.lt_succ_of_lt segments.length_lt)

theorem Names.ne_nil (h : Names tokens ws rest) : tokens ≠ [] := by
  have hreads {w : Written} {rest : List Token} (h : Written.Reads tokens w rest) : tokens ≠ [] :=
    List.ne_nil_of_length_pos (Nat.zero_lt_of_lt h.length_lt)
  cases h with
  | one reads => exact hreads reads
  | more reads => exact hreads reads

/-- What is left of the tokens where names have been read: what is behind them, or the first one
that is relative. -/
structure Names.Left (ws : List Written) (rest left : List Token) : Prop where
  behind : (∀ w ∈ ws, w.relative = false) → left = rest
  relative : ws.any (·.relative) = true → ∃ k, left.head? = some k ∧ k.isKeyword "namespace" = true

theorem Names.Left.of_relative {left : List Token} (hw : w.relative = true)
    (hk : ∃ k, left.head? = some k ∧ k.isKeyword "namespace" = true) :
    Names.Left (w :: ws) rest left where
  behind := fun hall => absurd (hall w List.mem_cons_self) (by simp [hw])
  relative := fun _ => hk

/-- **Names between commas are read up to the first one that is relative.** -/
theorem Names.namesFrom_eq (h : Names tokens ws rest) {n : ℕ} (hn : tokens.length < n)
    (hstart : start.token :: start.after = tokens) : ∃ left,
      namesFrom n (some start) = (Heading.known ws, left) ∧ Left ws rest (tokensFrom left) := by
  induction h generalizing start n with
  | @one tokens w rest reads ends =>
    obtain ⟨n, rfl⟩ : ∃ m, n = m + 1 := ⟨n - 1, by omega⟩
    cases hw : w.relative with
    | true =>
      obtain ⟨hnone, hword⟩ := reads.className?_eq_none hw hstart
      exact ⟨some start, by simp [namesFrom, hnone, Heading.known, hw], .of_relative hw ⟨_, rfl, hword⟩⟩
    | false =>
      obtain ⟨last, hname, rfl⟩ := reads.className?_eq hw hstart
      rw [← tokensFrom_nextCode?] at ends ⊢
      refine ⟨last.nextCode?, ?_, fun _ => rfl, by simp [hw]⟩
      cases hnext : last.nextCode? with
      | none => simp [namesFrom, hname, hnext, Heading.known, hw]
      | some next =>
        rw [hnext] at ends
        simp [namesFrom, hname, hnext, ends next.token rfl, Heading.known, hw]
  | @more tokens w rest comma behind ws rest' reads next mark names ih =>
    obtain ⟨n, rfl⟩ : ∃ m, n = m + 1 := ⟨n - 1, by omega⟩
    cases hw : w.relative with
    | true =>
      obtain ⟨hnone, hword⟩ := reads.className?_eq_none hw hstart
      exact ⟨some start, by simp [namesFrom, hnone, Heading.known, hw], .of_relative hw ⟨_, rfl, hword⟩⟩
    | false =>
      -- the names behind the comma are fewer tokens
      have hlength : (fromCode behind).length < n := by
        have hrest := reads.length_lt
        have hcode := length_fromCode_le rest
        have hbehind := length_fromCode_le behind
        rw [next, List.length_cons] at hcode
        omega
      obtain ⟨last, hname, rfl⟩ := reads.className?_eq hw hstart
      rw [← tokensFrom_nextCode?] at next
      obtain ⟨at_, hat, rfl, rfl⟩ := exists_of_tokensFrom next
      obtain ⟨t, more, hmore⟩ := List.exists_cons_of_ne_nil names.ne_nil
      have hcode := hmore
      rw [← tokensFrom_nextCode?] at hcode
      obtain ⟨start', hstart', rfl, rfl⟩ := exists_of_tokensFrom hcode
      obtain ⟨left, hread, hbehind, hrelative⟩ := ih hlength hmore.symm
      refine ⟨left, ?_, fun hall => ?_, fun hany => ?_⟩
      · simp [namesFrom, hname, hat, mark, hstart', hread, Heading.known, hw]
      · exact hbehind fun w hw => hall w (List.mem_cons_of_mem _ hw)
      · exact hrelative (by simpa [hw] using hany)

/-- **A clause is read like the names in it.** -/
theorem Clause.clause_eq {at_ : Option Site} (h : Clause k (tokensFrom at_) ws rest) :
    ∃ left, clause k at_ = (Heading.known ws, left) ∧ Names.Left ws rest (tokensFrom left) := by
  cases at_ with
  | none =>
    cases h
    exact ⟨none, by simp [clause, Heading.known], fun _ => rfl, by simp⟩
  | some s =>
    cases h with
    | absent other =>
      have hother := other s.token rfl
      exact ⟨some s, by simp [clause, hother, Heading.known], fun _ => rfl, by simp⟩
    | names word names =>
      obtain ⟨t, more, hmore⟩ := List.exists_cons_of_ne_nil names.ne_nil
      have hcode := hmore
      rw [← tokensFrom_nextCode?] at hcode
      obtain ⟨start, hstart, rfl, rfl⟩ := exists_of_tokensFrom hcode
      have hlength := Nat.lt_succ_of_le (length_fromCode_le s.after)
      obtain ⟨left, hread, hleft⟩ := names.namesFrom_eq hlength hmore.symm
      exact ⟨left, by simp [clause, word, namesAfter, hstart, hread], hleft⟩

/-- Where another token stands, there is no clause. -/
theorem clause_of_ne {at_ : Option Site} (h : ∀ t ∈ (tokensFrom at_).head?, t.isKeyword k = false) :
    clause k at_ = ([], at_) := by
  cases at_ with
  | none => rfl
  | some s => simp [clause, h s.token rfl]

theorem Heading.Stands.kind_word {h : Heading} (hs : h.Stands s) :
    (s.token.isKeyword "interface" || s.token.isKeyword "class" || s.token.isKeyword "enum") =
        true ∧ (s.token.isKeyword "interface" = true ↔ h.kind = .interface) := by
  have hword := hs.word
  simp only [Token.isKeyword, Bool.and_eq_true, decide_eq_true_eq] at hword
  have hclass : lowercase "class" ≠ lowercase "interface" := mt lowercase_eq_lowercase_iff.1 (by decide)
  have henum : lowercase "enum" ≠ lowercase "interface" := mt lowercase_eq_lowercase_iff.1 (by decide)
  cases hkind : h.kind <;>
    simp [Token.isKeyword, hword.1, hword.2, hkind, Heading.Kind.word, hclass, henum]

/-- Behind a name that is relative, no clause is found. -/
theorem Names.Left.clause_eq {at_ : Option Site} (h : Left ws rest (tokensFrom at_))
    (hany : ws.any (·.relative) = true) : clause "implements" at_ = ([], at_) := by
  obtain ⟨t, ht, hword⟩ := h.relative hany
  refine clause_of_ne fun u hu => ?_
  obtain rfl : t = u := Option.some.inj (ht.symm.trans hu)
  have hne : lowercase "namespace" ≠ lowercase "implements" :=
    mt lowercase_eq_lowercase_iff.1 (by decide)
  simp only [Token.isKeyword, Bool.and_eq_true, decide_eq_true_eq] at hword
  simp [Token.isKeyword, hword.1, hword.2, hne]

/-- **What is found behind the names that a class extends**, or behind those of an interface. -/
theorem Clause.implements_eq {at_ : Option Site} {extended implemented : List Written}
    {typed body : List Token} (hleft : Names.Left extended typed (tokensFrom at_))
    (h : Clause "implements" typed implemented body) : (clause "implements" at_).1 =
      if extended.any (·.relative) then [] else Heading.known implemented := by
  cases hany : extended.any (·.relative) with
  | true => rw [hleft.clause_eq hany]; rfl
  | false =>
    rw [← hleft.behind fun w hw => by simpa using List.any_eq_false.1 hany w hw] at h
    obtain ⟨left, hread, -⟩ := h.clause_eq
    rw [hread]
    rfl

/-- **What is learnt where a heading stands**, unless the keyword belongs to something else. -/
theorem Heading.declared_eq {h : Heading} (hs : h.Stands s)
    (hprev : (s.prev?.any fun t => t.isPunct "::" || t.isKeyword "new") = false) :
    let c := h.record s.path
    declared s = [.declares c.name c.parent c.interfaces c.file] := by
  intro c
  obtain ⟨hword, hinterface⟩ := hs.kind_word
  have hproper := hs.proper
  obtain ⟨n, behind, typed, implements, body, hnext, hname, htext, hextends, hbacking, himplements,
    hbody⟩ := hs.parts
  rw [← tokensFrom_nextCode?] at hnext
  obtain ⟨name, hfront, rfl, rfl⟩ := exists_of_tokensFrom hnext
  rw [← tokensFrom_nextCode?] at hextends
  obtain ⟨left, hread, hleft⟩ := hextends.clause_eq
  have hdeclared : declared s = if s.token.isKeyword "interface" then
      [.declares h.name none (known h.extended ++ (clause "implements" left).1) s.path]
      else [.declares h.name (known h.extended).head? (clause "implements" left).1 s.path] := by
    simp [declared, hword, hprev, hfront, hname, htext, hread]
  rw [hdeclared, show c = h.record s.path from rfl]
  unfold isProper at hproper
  cases hkind : h.kind with
  | cls =>
    simp only [hkind, Bool.and_eq_true, Bool.not_eq_true'] at hproper
    rw [hproper.2] at hbacking
    cases hbacking with
    | absent => simp [hinterface, hkind, record, himplements.implements_eq hleft]
  | interface =>
    simp only [hkind, Bool.and_eq_true, Bool.not_eq_true', List.isEmpty_iff] at hproper
    rw [hproper.2] at hbacking
    rw [hproper.1] at himplements
    cases hbacking with
    | absent => simp [hinterface, hkind, record, himplements.implements_eq hleft, known]
  | enumeration =>
    simp only [hkind, List.isEmpty_iff] at hproper
    rw [hproper] at hleft hextends
    cases hbacked : h.backed with
    | false =>
      rw [hbacked] at hbacking
      cases hbacking with
      | absent =>
        simp [hinterface, hkind, record, himplements.implements_eq hleft, hproper, hbacked, known]
    | true =>
      rw [hbacked] at hbacking
      have htyped := hleft.behind nofun
      cases hbacking with
      | type mark =>
        -- the mark in front of the type is where the clause is looked for
        have hnone : clause "implements" left = ([], left) := by
          refine clause_of_ne fun t ht => ?_
          rw [htyped] at ht
          cases ht
          exact Bool.eq_false_iff.2 fun hk => Token.not_isPunct_of_isKeyword hk mark
        simp [hinterface, hkind, record, hnone, hproper, hbacked, known]

end Reading

end PhpRename.Php
