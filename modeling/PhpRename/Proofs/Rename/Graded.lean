import PhpRename.Proofs.Rename.Family

/-!
# How sure a call is

The class that the receiver of a call means decides how sure it is that the method of a class is
called: certain for that class, doubtful for a class below it or where no class is meant, and out of
the question for any other.

Which class is meant is read off the last token of the receiver and the one before it. Before an
arrow a member is told from a variable by that. Before a double colon it is not: a property there is
taken for a class of its name, or for the local variable of its name. A variable whose name another
one holds is taken for that other one, and no word that is the name of a built-in type, `Resource` or
`Number` say, is taken for a class.

* `Names`, `IsPart`: what the last token of a receiver means, and whether there is more to the
  receiver.
* `Graded`: the edits at a call, by the class that its receiver means.
* `calls_graded`: calls are graded by what the receiver means, and how they are where it is misread.
-/

namespace PhpRename.Rename

open Php Edit

variable {db : Symbols} {source : Source} {s front r : Site} {old new target D : String}

/-! ## What a receiver means -/

/-- The class that a word means before a double colon. -/
def wordClass? (db : Symbols) (s : Site) (word : String) : Option String :=
  match lowercase word with
  | "self" | "static" => s.cls?
  | "parent" => s.cls?.bind db.parent?
  | _ => if word = "" then none else some word

/-- The token before the mark `front` is a word that names a class. -/
def isWord (front r : Site) : Bool :=
  front.token.isPunct "::" && (r.token.kind = .name || r.token.isRelativeClass)

/-- The last token of a receiver means a class: `$this` the class around it, another variable the
class that it is known to hold, and a word before a double colon the class that it names. -/
inductive Names (db : Symbols) (s front r : Site) : String → Prop
  | this {D : String} (kind : r.token.kind = .variable) (text : r.token.text = "$this")
      (cls : s.cls? = some D) : Names db s front r D
  | variable {D : String} (kind : r.token.kind = .variable) (text : r.token.text ≠ "$this")
      (type : db.typeOf? s.varScope r.token.text = some D) : Names db s front r D
  | word {D : String} (word : isWord front r = true)
      (cls : wordClass? db s (lastSegment r.token.text) = some D) : Names db s front r D

/-- The token is a variable that holds the name of the variable that is meant. -/
def holdsName (r : Site) : Bool :=
  r.token.kind = .variable && r.prev?.any (·.isPunct "$")

/-- The token is no receiver on its own, but the last part of one: a member, or a variable that holds
the name of another one. -/
def isPart (r : Site) : Bool :=
  isMember r || holdsName r

/-- The receiver as a whole means a class. -/
def Means (db : Symbols) (s front r : Site) (D : String) : Prop :=
  Names db s front r D ∧ isPart r = false

/-- The word before a double colon is the name of a built-in type, too. -/
def isBuiltin (front r : Site) : Bool :=
  isWord front r && isPrimitive (lastSegment r.token.text)

/-- The receiver is not read as what it is: the last part of it is taken for the whole, or a class is
taken for a built-in type. -/
def isMisread (front r : Site) : Bool :=
  (front.token.isPunct "::" && isMember r) || holdsName r || isBuiltin front r

/-- A name means the class that it is a word for, unless that is a built-in type. -/
theorem resolve?_eq (db : Symbols) (s : Site) (name : String) : s.resolve? db name =
    if isPrimitive (lastSegment name) then none else wordClass? db s (lastSegment name) := by
  unfold Site.resolve? wordClass?
  generalize lastSegment name = word
  by_cases hprimitive : isPrimitive word = true
  · simp [hprimitive]
  by_cases hempty : word = ""
  · have hlow : lowercase "" = "" := by simp [lowercase]
    simp [hempty, hlow]
  · have hsome : ¬(decide (word = "") || isPrimitive word) = true := by simp [hprimitive, hempty]
    rw [if_neg hprimitive, if_neg hempty]
    exact if_neg hsome

theorem kind_ne_of_isWord (h : isWord front r = true) : r.token.kind ≠ .variable := by
  rw [isWord, Bool.and_eq_true, Bool.or_eq_true, decide_eq_true_eq] at h
  exact kind_ne_of_word h.2

/-- **What is meant is what the last token means**, where that is neither a member before an arrow
nor the name of a built-in type. -/
theorem meant_iff_names (hmember : front.token.isMemberAccess = true → isMember r = false)
    (hbuiltin : isBuiltin front r = false) : Meant db s front r D ↔ Names db s front r D := by
  have hword : isWord front r = true → isPrimitive (lastSegment r.token.text) = false := by
    intro hw
    simpa [isBuiltin, hw] using hbuiltin
  constructor
  · rintro (⟨kind, text, -, cls⟩ | ⟨kind, text, -, type⟩ | ⟨colon, word, cls⟩)
    · exact .this kind text cls
    · exact .variable kind text type
    · have hw : isWord front r = true := by simpa [isWord, colon] using word
      rw [resolve?_eq, hword hw, if_neg Bool.false_ne_true] at cls
      exact .word hw cls
  · rintro (⟨kind, text, cls⟩ | ⟨kind, text, type⟩ | ⟨word, cls⟩)
    · exact .this kind text hmember cls
    · exact .variable kind text hmember type
    · have hcls : s.resolve? db r.token.text = some D := by
        rw [resolve?_eq, hword word, if_neg Bool.false_ne_true]
        exact cls
      obtain ⟨colon, hname⟩ := Bool.and_eq_true_iff.1 word
      exact .named colon (by simpa using hname) hcls

/-- A member before an arrow means no class. -/
theorem not_meant_of_member (harrow : front.token.isMemberAccess = true)
    (hmember : isMember r = true) : ¬ Meant db s front r D := by
  rintro (⟨-, -, plain, -⟩ | ⟨-, -, plain, -⟩ | ⟨colon, -, -⟩)
  · rw [plain harrow] at hmember; cases hmember
  · rw [plain harrow] at hmember; cases hmember
  · exact not_isMemberAccess_of_colon colon harrow

/-- The name of a built-in type means no class. -/
theorem not_meant_of_builtin (h : isBuiltin front r = true) : ¬ Meant db s front r D := by
  obtain ⟨hword, hprimitive⟩ := Bool.and_eq_true_iff.1 h
  have hkind := kind_ne_of_isWord hword
  rintro (⟨kind, -, -, -⟩ | ⟨kind, -, -, -⟩ | ⟨-, -, cls⟩)
  · exact hkind kind
  · exact hkind kind
  · rw [resolve?_eq, if_pos hprimitive] at cls
    cases cls

/-! ## Grades -/

/-- The edits at a call of `target`'s method, where `means` tells the class that the receiver means:
one that is certain for `target` itself, none for a class that has not `target` above it, and one in
doubt in every other case. -/
structure Graded (db : Symbols) (target new : String) (s : Site) (means : String → Prop)
    (edits : List Edit) : Prop where
  certain : edits = [replaceToken s new .certain] ↔ means target
  none : edits = [] ↔ ∃ D, means D ∧ D ≠ target ∧ db.isAncestor D target = false
  ambiguous : edits = [replaceToken s new .ambiguous] ↔
    ¬ means target ∧ ∀ D, means D → db.isAncestor D target = true

theorem replaceToken_inj {c d : Confidence} :
    replaceToken s new c = replaceToken s new d ↔ c = d := by
  constructor
  · intro h
    exact congrArg Edit.confidence h
  · rintro rfl
    rfl

/-- What a proposer thinks of a receiver grades the call. -/
theorem graded_of_receiver {receiver : Option String} {means : String → Prop}
    (h : ∀ D, receiver = some D ↔ means D) :
    Graded db target new s means
      ((ofReceiver db target receiver).toList.map (replaceToken s new)) := by
  cases receiver with
  | none =>
    have hnone : ∀ D, ¬ means D := fun D hD => nomatch (h D).2 hD
    refine ⟨?_, ?_, ?_⟩ <;> simp [ofReceiver, replaceToken_inj, hnone]
  | some C =>
    have hmeans : ∀ D, means D ↔ C = D := fun D => (h D).symm.trans (by simp)
    by_cases hC : C = target
    · subst hC
      refine ⟨?_, ?_, ?_⟩ <;> simp [ofReceiver, ofClass, replaceToken_inj, hmeans]
    · cases hup : db.isAncestor C target <;>
        refine ⟨?_, ?_, ?_⟩ <;> simp [ofReceiver, ofClass, replaceToken_inj, hmeans, hC, hup]

theorem graded_of_meant (h : CallOf old s front r) {means : String → Prop}
    (hmeans : ∀ D, Meant db s front r D ↔ means D) :
    Graded db target new s means (methodEdits target old new db s) := by
  rw [methodEdits_of_call h]
  exact graded_of_receiver fun D => (receiverClass?_eq_some_iff h).trans (hmeans D)

/-- **Calls are graded by the class that the receiver means**, as long as it is not misread. Where it
is, a call is graded by what the last token of the receiver means on its own, or, if that is the name
of a built-in type, it stays in doubt for every class. -/
theorem calls_graded (h : CallOf old s front r) (db : Symbols) (target new : String) :
    (isMisread front r = false →
      Graded db target new s (Means db s front r) (methodEdits target old new db s)) ∧
    (isMisread front r = true → isBuiltin front r = false →
      Graded db target new s (Names db s front r) (methodEdits target old new db s)) ∧
    (isBuiltin front r = true →
      methodEdits target old new db s = [replaceToken s new .ambiguous]) := by
  refine ⟨fun hread => ?_, fun hmisread hbuiltin => ?_, fun hbuiltin => ?_⟩
  · obtain ⟨⟨hcolon, hdollar⟩, hbuiltin⟩ := by simpa [isMisread] using hread
    refine graded_of_meant h fun D => ?_
    by_cases hmember : isMember r = true
    · -- so the mark is an arrow, before which a member is told from a variable
      have harrow := h.mark.resolve_left (by simpa [hmember] using hcolon)
      have hpart : isPart r = true := by simp [isPart, hmember]
      exact iff_of_false (not_meant_of_member harrow hmember) fun hm => by simp [hm.2] at hpart
    · have hpart : isPart r = false := by simpa [isPart, hdollar] using hmember
      rw [meant_iff_names (fun _ => by simpa using hmember) hbuiltin]
      exact ⟨fun hD => ⟨hD, hpart⟩, And.left⟩
  · refine graded_of_meant h fun D => meant_iff_names (fun harrow => ?_) hbuiltin
    -- before an arrow only a variable that holds the name of another is misread
    have hcolon : front.token.isPunct "::" = false := by
      rw [Bool.eq_false_iff]
      exact fun hc => not_isMemberAccess_of_colon hc harrow
    have hdollar : holdsName r = true := by simpa [isMisread, hcolon, hbuiltin] using hmisread
    rw [holdsName, Bool.and_eq_true] at hdollar
    obtain ⟨t, ht, hpunct⟩ := (Option.any_eq_true _ _).1 hdollar.2
    have htext := (Token.isPunct_iff.1 hpunct).2
    rw [isMember, ht, Option.any_some, Token.isMemberAccess, Token.isPunct, Token.isPunct,
      Token.isPunct, htext]
    simp
  · have hnone : ∀ D, Meant db s front r D ↔ False := fun D =>
      iff_of_false (not_meant_of_builtin hbuiltin) id
    exact (graded_of_meant h hnone).ambiguous.2 ⟨id, fun D hD => hD.elim⟩

/-- A call for the parent of the class around it. -/
theorem calls_graded_parent :
    let source := Source.read ⟨"/d.php"⟩
      "<?php\nclass D extends C { function f() { parent::old(); } }\n"
    let db := (Symbols.empty.addClass "C" none ⟨"/c.php"⟩).addClass "D" (some "C") ⟨"/d.php"⟩
    ∃ s ∈ Site.all source, ∃ front r, CallOf "old" s front r ∧ isMisread front r = false ∧
      Means db s front r "C" ∧
      methodEdits "C" "old" "neu" db s = [replaceToken s "neu" .certain] := by
  intro source db
  obtain ⟨s, hs, front, r, hcall, hq⟩ := exists_call source "old"
    (fun s front r => !isMisread front r && !isPart r && isWord front r &&
      wordClass? db s (lastSegment r.token.text) = some "C") (by decide +kernel)
  obtain ⟨⟨⟨hread, hpart⟩, hword⟩, hcls⟩ := by simpa using hq
  have hmeans : Means db s front r "C" := ⟨.word hword hcls, hpart⟩
  exact ⟨s, hs, front, r, hcall, hread, hmeans,
    ((calls_graded hcall db "C" "neu").1 hread).certain.2 hmeans⟩

/-- A property before a double colon means no class that is known, and still it is taken for a class
of its name: the call is not in doubt, but taken to be for another class. -/
theorem property_taken_for_class :
    let source := Source.read ⟨"/p/t.php"⟩
      "<?php\nclass Job { function m() { $this->handler::run(); } }\n"
    ¬ ∀ s ∈ Site.all source, ∀ front r, CallOf "run" s front r →
      Graded Symbols.empty "Job" "start" s (Means Symbols.empty s front r)
        (methodEdits "Job" "run" "start" Symbols.empty s) := by
  intro source hall
  obtain ⟨s, hs, front, r, hcall, hq⟩ := exists_call source "run"
    (fun s _ r => isPart r && (methodEdits "Job" "run" "start" Symbols.empty s).isEmpty)
    (by decide +kernel)
  obtain ⟨hpart, hnone⟩ := by simpa using hq
  have hmeans : ∀ D, ¬ Means Symbols.empty s front r D := fun D hD => by simp [hD.2] at hpart
  have hdoubt := (hall s hs front r hcall).ambiguous.2 ⟨hmeans "Job", fun D hD => absurd hD (hmeans D)⟩
  rw [hnone] at hdoubt
  cases hdoubt

end PhpRename.Rename
