import PhpRename.Proofs.Php.Cut
import PhpRename.Proofs.Php.Declared

/-!
# Names are identifiers

The cutter takes a word as far as it goes, so a word is made of the characters of names. The names
among the tokens of a file are words, and so are the names of the classes that its scopes stand in.

* `isIdentifier`: a name without a namespace.
* `Cutter.isIdentifier_of_run`: the words of a text are identifiers.
* `Source.isIdentifier_of_name`, `Source.isIdentifier_of_scope`: so are the names in a file.
-/

namespace PhpRename.Php

/-- A letter, a digit, an underscore, or a character beyond ASCII. -/
def isNameChar (c : Char) : Bool :=
  c.isAlphanum || c = '_' || 0x80 ≤ c.toNat

/-- A name without a namespace. -/
def isIdentifier (name : String) : Bool :=
  name ≠ "" && name.toList.all isNameChar

theorem isIdentifier_iff {name : String} :
    isIdentifier name = true ↔ name ≠ "" ∧ ∀ c ∈ name.toList, isNameChar c = true := by
  simp [isIdentifier]

/-- The letters and digits among them are those of ASCII. -/
theorem isNameChar_eq (c : Char) : isNameChar c =
    ((65 ≤ c.val ∧ c.val ≤ 90 || (97 ≤ c.val && c.val ≤ 122) || (48 ≤ c.val && c.val ≤ 57)) ||
      c = '_' || 0x80 ≤ c.toNat) := rfl

theorem isNameChar_of_isNameRest {c : Char} (h : isNameRest c = true) : isNameChar c = true := by
  simp only [isNameRest, isNameStart, isDigit, Bool.or_eq_true, Bool.and_eq_true,
    decide_eq_true_eq] at h
  simp only [isNameChar_eq, Bool.or_eq_true, Bool.and_eq_true, decide_eq_true_eq]
  rcases h with (((hc | hc) | hc) | hc) | hc
  · exact .inl (.inr hc)
  · exact .inl (.inl (.inl (.inr hc)))
  · exact .inl (.inl (.inl (.inl hc)))
  · exact .inr hc.1.1.1.1
  · exact .inl (.inl (.inr hc))

/-! ## Words -/

namespace Cutter

variable {st : Cutter} {c : Char} {cs : List Char} {offset line : Nat} {l : Lexeme}

/-- What begins the text `c :: cs` is no word, or it is all of a name. -/
def Piece.Named (piece : Piece) (c : Char) (cs : List Char) : Prop :=
  piece.kind = .word →
    isNameStart c = true ∧ piece.extra = ((c :: cs).takeWhile isNameRest).length - 1

theorem Piece.named_of_ne {piece : Piece} (h : piece.kind ≠ .word) (c : Char) (cs : List Char) :
    piece.Named c cs :=
  fun hword => absurd hword h

theorem nextWord_named (st : Cutter) (hc : isNameStart c = true) :
    (nextWord st (c :: cs)).Named c cs := by
  unfold nextWord
  dsimp only
  split
  · exact Piece.named_of_ne (by exact nofun) c cs
  · exact fun _ => ⟨hc, rfl⟩

theorem nextCode_named (st : Cutter) (c : Char) (cs : List Char) :
    (nextCode st (c :: cs)).Named c cs := by
  have hmark : (nextMark st (c :: cs)).Named c cs := Piece.named_of_ne (by exact nofun) c cs
  unfold nextCode
  dsimp only
  split
  case h_13 he =>
    obtain ⟨rfl, rfl⟩ := List.cons.inj he
    split
    · exact Piece.named_of_ne (by exact nofun) c cs
    split
    · refine Piece.named_of_ne ?_ c cs
      dsimp only
      split <;> exact nofun
    split
    · exact Piece.named_of_ne (by exact nofun) c cs
    split
    · exact Piece.named_of_ne (by exact nofun) c cs
    split
    · rename_i hc
      exact nextWord_named st hc
    · exact hmark
  all_goals
    repeat' split
  all_goals first
    | exact hmark
    | exact Piece.named_of_ne (by exact nofun) c cs

/-- Outside the tags and between backticks there are no words. -/
theorem next_named (st : Cutter) (c : Char) (cs : List Char) : (st.next (c :: cs)).Named c cs := by
  unfold next
  split
  · unfold nextMarkup
    repeat' split
    all_goals exact Piece.named_of_ne (by exact nofun) c cs
  · unfold nextShell
    dsimp only
    repeat' split
    all_goals exact Piece.named_of_ne (by exact nofun) c cs
  · exact nextCode_named st c cs

/-- A name goes on as far as its characters do. -/
theorem Piece.Named.isIdentifier {piece : Piece} (h : piece.Named c cs) (hword : piece.kind = .word) :
    isIdentifier (String.ofList (c :: cs.take piece.extra)) = true := by
  obtain ⟨hstart, hextra⟩ := h hword
  have hrest : isNameRest c = true := by rw [isNameRest, hstart, Bool.true_or]
  have htake : cs.take piece.extra = cs.takeWhile isNameRest := by
    rw [hextra, List.takeWhile_cons_of_pos hrest, List.length_cons, Nat.add_sub_cancel]
    exact take_length_takeWhile isNameRest cs
  rw [isIdentifier_iff, htake, String.toList_ofList]
  refine ⟨fun he => ?_, fun d hd => isNameChar_of_isNameRest ?_⟩
  · have hlist := congrArg String.toList he
    rw [String.toList_ofList] at hlist
    cases hlist
  · rcases List.mem_cons.1 hd with rfl | hd
    · exact hrest
    · exact List.mem_takeWhile_imp hd

/-- **Words are identifiers.** -/
theorem isIdentifier_of_run (h : l ∈ run st offset line cs) (hl : l.kind = .word) :
    isIdentifier l.text = true := by
  fun_induction run st offset line cs with
  | case1 => cases h
  | case2 st offset line c cs piece chars ih =>
    rcases List.mem_cons.1 h with rfl | h
    · exact (next_named st c cs).isIdentifier hl
    · exact ih h

end Cutter

/-- The words of the lexemes are identifiers. -/
def Worded (ls : List Lexeme) : Prop :=
  ∀ l ∈ ls, l.kind = .word → isIdentifier l.text = true

theorem worded_lexemes (content : List Char) : Worded (lexemes content) := by
  intro l h hl
  unfold lexemes at h
  split at h
  · cases h
  split at h
  · rcases List.mem_cons.1 h with rfl | h
    · cases hl
    · exact Cutter.isIdentifier_of_run h hl
  · exact Cutter.isIdentifier_of_run h hl

/-! ## What classes are called -/

namespace Goal

variable {l : Lexeme} {look rest : List Lexeme} {name : String} {inner after : List Goal}

theorem afterModifiers_suffix (look : List Lexeme) : afterModifiers look <:+ look := by
  induction look with
  | nil => exact List.suffix_rfl
  | cons l rest ih =>
    rw [afterModifiers]
    split
    · exact ih.trans (List.suffix_cons l rest)
    · exact List.suffix_rfl

theorem afterAttributes_suffix (depth : Nat) (look : List Lexeme) :
    afterAttributes depth look <:+ look := by
  induction look generalizing depth with
  | nil => exact List.suffix_rfl
  | cons l rest ih =>
    unfold afterAttributes
    repeat' split
    all_goals first
      | exact List.suffix_rfl
      | exact (ih _).trans (List.suffix_cons l rest)

/-- The name of a class is a word of its declaration. -/
theorem declaration_cls (h : declaration look = .opens (.cls name) inner after) :
    ∃ n ∈ look, n.kind = .word ∧ n.text = name := by
  have hsuffix := (afterModifiers_suffix (afterAttributes 0 look)).trans
    (afterAttributes_suffix 0 look)
  unfold declaration at h
  split at h
  swap
  · cases h
  rename_i w rest hlook
  rw [hlook] at hsuffix
  split at h
  · split at h
    swap
    · cases h
    rename_i n more
    split at h
    swap
    · cases h
    rename_i hword
    cases h
    have hmem : n ∈ w :: n :: more := by simp
    exact ⟨n, hsuffix.subset hmem, hword, rfl⟩
  · split at h
    · split at h <;> cases h
    · cases h

theorem respondAt_cls {g : Goal} (h : g.respondAt l rest = .opens (.cls name) inner after) :
    ∃ n ∈ l :: rest, n.kind = .word ∧ n.text = name := by
  have hopens := respondAt_opens h
  cases hopens with
  | cls =>
    unfold respondAt at h
    dsimp only at h
    split at h
    · cases h
    · unfold wordStatement at h
      repeat' split at h
      all_goals first | cases h | exact declaration_cls h
    · repeat' split at h
      all_goals first | cases h | exact declaration_cls h
    · cases h

end Goal

/-! ## Files -/

namespace Reader

variable {st : Reader} {l : Lexeme} {look rest ls : List Lexeme} {outer : Option Nat}

/-- The classes that scopes stand in are called by identifiers. -/
def Named (scopes : List Scope) : Prop :=
  ∀ sc ∈ scopes, ∀ name, sc.cls = some name → isIdentifier name = true

theorem Named.open {scopes : List Scope} (h : Named scopes) {o : Opening} (current : Scope)
    (hcurrent : ∀ name, current.cls = some name → isIdentifier name = true)
    (ho : ∀ name, o = .cls name → isIdentifier name = true) (offset : Nat) :
    Named (scopes ++ [scopeOf o current offset]) := by
  intro sc hsc name hname
  rcases List.mem_append.1 hsc with hsc | hsc
  · exact h sc hsc name hname
  obtain rfl := List.mem_singleton.1 hsc
  cases o with
  | cls n =>
    cases hname
    exact ho name rfl
  | function n => exact hcurrent name hname
  | closure => exact hcurrent name hname

theorem Named.getD {scopes : List Scope} (h : Named scopes) (n : Nat) (name : String)
    (hname : (scopes[n]?.getD ⟨none, none⟩).cls = some name) : isIdentifier name = true := by
  cases hsc : scopes[n]? with
  | none =>
    rw [hsc] at hname
    cases hname
  | some sc =>
    rw [hsc] at hname
    exact h sc (List.mem_of_getElem? hsc) name hname

theorem named_settle (hlook : Worded (l :: rest)) (steps : Nat) (h : Named st.scopes) :
    Named (settle l rest steps st outer).next.scopes := by
  fun_induction settle l rest steps st outer with
  | case1 => exact h
  | case2 => exact h
  | case3 steps st outer n goals hgoals ih => exact ih h
  | case4 => exact h
  | case5 steps st outer g goals _ hgoals more hr ih => exact ih h
  | case6 steps st outer g goals _ hgoals hr ih => exact ih h
  | case7 steps st outer g goals _ hgoals opening inner after hr current ih =>
    refine ih (h.open current (h.getD st.scope) ?_ l.offset)
    rintro name rfl
    obtain ⟨n, hn, hword, rfl⟩ := Goal.respondAt_cls hr
    exact hlook n hn hword

/-- **The names among the tokens are identifiers**, and so are the names of classes. -/
theorem named_run (hlook : Worded look) (hls : Worded ls) (h : Named st.scopes) :
    Named (st.run look ls).2.scopes ∧
      ∀ t ∈ (st.run look ls).1, t.kind = .name → isIdentifier t.text = true := by
  induction ls generalizing st look with
  | nil => exact ⟨h, nofun⟩
  | cons l rest ih =>
    obtain ⟨hl, hrest⟩ := List.forall_mem_cons.1 hls
    have htail : Worded look.tail := fun n hn => hlook n (List.mem_of_mem_tail hn)
    have hname (role : Role) (scope : Nat) (h : (token l role scope).kind = .name) :
        isIdentifier (token l role scope).text = true := hl (word_of_name h)
    rw [run]
    split
    · exact ih hlook hrest h
    split
    · obtain ⟨hscopes, htokens⟩ := ih hlook hrest h
      exact ⟨hscopes, List.forall_mem_cons.2 ⟨hname _ _, htokens⟩⟩
    · have hnext : Named (st.meet l look.tail).next.scopes :=
        named_settle (List.forall_mem_cons.2 ⟨hl, htail⟩) _ h
      obtain ⟨hscopes, htokens⟩ := ih htail hrest hnext
      exact ⟨hscopes, List.forall_mem_cons.2 ⟨hname _ _, htokens⟩⟩

end Reader

namespace Source

variable {path : Path} {content name : String} {t : Token} {sc : Scope}

theorem named_read (path : Path) (content : String) : Reader.Named (read path content).scopes ∧
    ∀ t ∈ (read path content).tokens, t.kind = .name → isIdentifier t.text = true := by
  have hworded := worded_lexemes content.toList
  have hspoken : Worded (spoken (lexemes content.toList)) :=
    fun l hl => hworded l (List.mem_of_mem_filter hl)
  have hstart : Reader.Named Reader.start.scopes := by
    intro sc hsc name hname
    obtain rfl := List.mem_singleton.1 hsc
    cases hname
  exact Reader.named_run hspoken hworded hstart

/-- **The names in a file are identifiers**, whatever it holds. -/
theorem isIdentifier_of_name (ht : t ∈ (read path content).tokens) (hname : t.kind = .name) :
    isIdentifier t.text = true :=
  (named_read path content).2 t ht hname

theorem isIdentifier_of_scope (hsc : sc ∈ (read path content).scopes) (hname : sc.cls = some name) :
    isIdentifier name = true :=
  (named_read path content).1 sc hsc name hname

end Source

end PhpRename.Php
