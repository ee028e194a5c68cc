import Mathlib.Data.List.Pairwise
import PhpRename.Proofs.Edit.Merge
import PhpRename.Proofs.Php.Read
import PhpRename.Proofs.Php.Site
import PhpRename.Proofs.Rename.Proposed
import PhpRename.Proofs.Survey.Proposals
import PhpRename.Proofs.Symbols.Hierarchy
import PhpRename.Session.Run

/-!
# A method renamed in a class and all below it

A proposer for one class is in doubt about objects of the classes below it. Where the method is
renamed in all of these, each of them has a proposer of its own, and one of the proposers is certain
of every object that may have the method. Their edits at one call make the same change, so the
doubts of the others are gone once the edits are merged.

* `Rename.CallOf`, `Rename.Meant`: calls of a method, and the classes that their receivers mean;
  `receiverClass?` finds these.
* `Rename.filter_familyEdits`: what is left of the edits at one call.
* `Rename.opinions_eq_nil`: links lead from no class outside the family into it.
* `Rename.family_settles_calls`: there is no doubt where the class of the receiver is known.
* `Session.proposers_follow_descendants`: a session gets these proposers where a method is renamed
  with all that inherit it.
-/

namespace PhpRename

/-! ## Merging proposals for one token -/

namespace Confidence

/-- The strongest of some confidences is certain if and only if one of them is. -/
theorem foldl_max_eq_certain {c : Confidence} {cs : List Confidence} :
    cs.foldl max c = .certain ↔ .certain ∈ c :: cs := by
  induction cs generalizing c with
  | nil => simp [eq_comm]
  | cons d cs ih =>
    rw [List.foldl_cons, ih]
    cases c <;> simp [max]

end Confidence

namespace Rename

open Php Edit

variable {db : Symbols} {source : Source} {s front r : Site} {cls old new D : String}

theorem merged_replaceToken (s : Site) (new : String) (c : Confidence) (cs : List Confidence) :
    merged ((c :: cs).map (replaceToken s new)) = [replaceToken s new (cs.foldl .max c)] := by
  have hfold : ∀ c : Confidence, (cs.map (replaceToken s new)).foldl (fun xs e => insertInto e xs)
      [replaceToken s new c] = [replaceToken s new (cs.foldl .max c)] := by
    induction cs with
    | nil => exact fun c => rfl
    | cons d cs ih =>
      intro c
      have hsame : (replaceToken s new c).sameChange (replaceToken s new d) = true :=
        sameChange_iff.2 ⟨rfl, rfl, rfl⟩
      rw [List.map_cons, List.foldl_cons, insertInto_cons_of_same [] hsame]
      exact ih (c.max d)
  exact hfold c

/-- What proposers are sure of at one token is there for certain, and what they are in doubt of is
doubtful. -/
theorem merged_replaceToken_eq (s : Site) (new : String) (cs : List Confidence) :
    merged (cs.map (replaceToken s new)) =
      if .certain ∈ cs then [replaceToken s new .certain]
      else if cs = [] then [] else [replaceToken s new .ambiguous] := by
  cases cs with
  | nil => rfl
  | cons c cs =>
    rw [merged_replaceToken]
    by_cases h : .certain ∈ c :: cs
    · rw [if_pos h, Confidence.foldl_max_eq_certain.2 h]
    · rw [if_neg h, if_neg (List.cons_ne_nil c cs)]
      have hne := mt Confidence.foldl_max_eq_certain.1 h
      cases hc : cs.foldl .max c with
      | certain => exact absurd hc hne
      | ambiguous => rfl

/-! ## One token of a file -/

/-- Of proposals that replace the tokens of a file, those at the offset of a token are those at its
site. -/
theorem filter_proposals {ps : List Proposer} (ha : source.Ascending) (hs : s ∈ Site.all source)
    (hp : ∀ p ∈ ps, ∀ t, ∀ e ∈ p.edits db t, e.offset = t.token.offset) :
    (Proposer.proposals ps db source).filter (·.offset = s.token.offset) =
      ps.flatMap (·.edits db s) := by
  have htokens : ((Site.all source).map (·.token)).Pairwise fun t u => t.offset < u.offset := by
    rw [Site.map_token_all]
    exact ha
  have hsites := List.pairwise_map.1 htokens
  have hat : ∀ t : Site, ∀ e ∈ ps.flatMap (·.edits db t), e.offset = t.token.offset := by
    intro t e he
    obtain ⟨p, hmem, he⟩ := List.mem_flatMap.1 he
    exact hp p hmem t e he
  have hother : ∀ ts : List Site, (∀ t ∈ ts, t.token.offset ≠ s.token.offset) →
      (ts.flatMap fun t => ps.flatMap (·.edits db t)).filter (·.offset = s.token.offset) = [] := by
    intro ts hne
    refine List.filter_eq_nil_iff.2 fun e he => ?_
    obtain ⟨t, ht, he⟩ := List.mem_flatMap.1 he
    rw [decide_eq_true_eq, hat t e he]
    exact hne t ht
  -- the tokens before the site begin earlier, those after it begin later
  obtain ⟨pre, post, hsplit⟩ := List.append_of_mem hs
  rw [hsplit, List.pairwise_append, List.pairwise_cons] at hsites
  obtain ⟨-, ⟨hpost, -⟩, hpre⟩ := hsites
  rw [Proposer.proposals, hsplit, List.flatMap_append, List.flatMap_cons, List.filter_append,
    List.filter_append, hother pre, hother post, List.nil_append, List.append_nil,
    List.filter_eq_self]
  · exact fun e he => by rw [decide_eq_true_eq]; exact hat s e he
  · exact fun t ht => Nat.ne_of_gt (hpost t ht)
  · exact fun t ht => Nat.ne_of_lt (hpre t ht s List.mem_cons_self)

/-! ## Calls -/

/-- At the site `s` the method `old` is called. Before it is the mark `front`, and before that `r`
is the receiver. -/
structure CallOf (old : String) (s front r : Site) : Prop where
  kind : s.token.kind = .name
  text : s.token.text = old
  called : s.isCalled = true
  before : s.prevCode? = some front
  mark : front.token.isPunct "::" = true ∨ front.token.isMemberAccess = true
  receiver : front.prevCode? = some r

/-- The mark and the receiver of the call, if the method is called at the site. -/
def call? (old : String) (s : Site) : Option (Site × Site) :=
  if s.token.kind = .name ∧ s.token.text = old ∧ s.isCalled then
    s.prevCode?.bind fun front =>
      if front.token.isPunct "::" || front.token.isMemberAccess then
        front.prevCode?.map fun r => (front, r)
      else none
  else none

theorem call?_eq_some_iff : call? old s = some (front, r) ↔ CallOf old s front r := by
  rw [call?]
  constructor
  · intro h
    split at h
    · rename_i hname
      obtain ⟨front', hfront, h⟩ := Option.bind_eq_some_iff.1 h
      split at h
      · rename_i hmark
        obtain ⟨r', hr, he⟩ := Option.map_eq_some_iff.1 h
        cases he
        exact ⟨hname.1, hname.2.1, hname.2.2, hfront, by simpa using hmark, hr⟩
      · cases h
    · cases h
  · rintro ⟨kind, text, called, before, mark, receiver⟩
    rw [if_pos ⟨kind, text, called⟩, before, Option.bind_some, if_pos (by simpa using mark),
      receiver]
    rfl

/-- Calls are found by looking at every site. -/
theorem exists_call (source : Source) (old : String) (q : Site → Site → Site → Bool)
    (h : ((Site.all source).any fun s => (call? old s).any fun c => q s c.1 c.2) = true) :
    ∃ s ∈ Site.all source, ∃ front r, CallOf old s front r ∧ q s front r = true := by
  obtain ⟨s, hs, h⟩ := List.any_eq_true.1 h
  obtain ⟨⟨front, r⟩, hcall, hq⟩ := (Option.any_eq_true _ _).1 h
  exact ⟨s, hs, front, r, call?_eq_some_iff.1 hcall, hq⟩

/-- What stands at the site is itself named behind an arrow or a double colon. -/
def isMember (r : Site) : Bool :=
  r.prev?.any fun t => t.isMemberAccess || t.isPunct "::"

/-- The class that the method at `s` is taken to be called for; `none` where this is unknown. -/
def receiverClass? (db : Symbols) (s front r : Site) : Option String :=
  if front.token.isPunct "::" then
    if r.token.kind = .name || r.token.isRelativeClass then s.resolve? db r.token.text
    else if r.token.kind = .variable then variableClass? db s r.token
    else none
  else if r.token.kind = .variable && !isMember r then variableClass? db s r.token
  else none

/-- A proposer is as sure of a call as the class of its receiver allows. -/
theorem methodConfidence_of_call (h : CallOf old s front r) (target : String) :
    methodConfidence db target s front = ofReceiver db target (receiverClass? db s front r) := by
  have hpunct : front.token.kind = .punct :=
    h.mark.elim (fun hc => (Token.isPunct_iff.1 hc).1) fun ha => (Token.isMemberAccess_iff.1 ha).1
  have hamp : front.token.isPunct "&" = false := by
    rw [Bool.eq_false_iff, Ne, Token.isPunct_iff]
    rintro ⟨-, ht⟩
    rcases h.mark with hm | hm
    · rw [Token.isPunct_iff, ht] at hm; exact absurd hm.2 (by decide)
    · rw [Token.isMemberAccess_iff, ht] at hm; exact absurd hm.2 (by decide)
  have hfn : front.token.isKeyword "function" = false := by
    rw [Bool.eq_false_iff]
    intro hk
    rw [Token.kind_of_isKeyword hk] at hpunct
    cases hpunct
  -- so the mark itself tells how the name is used
  unfold methodConfidence receiverClass?
  simp only [hamp, hfn, h.called, Bool.and_true, Bool.false_eq_true, if_false]
  by_cases hcolon : front.token.isPunct "::" = true
  · rw [if_pos hcolon, if_pos hcolon, Site.prev?, h.receiver]
    show staticCall db target s r.token = _
    unfold staticCall
    split
    · rfl
    split <;> rfl
  · rw [if_neg hcolon, if_neg hcolon, if_pos (h.mark.resolve_left hcolon), h.receiver]
    show memberCall db target s r = _
    unfold memberCall
    dsimp only
    rw [← isMember]
    split <;> rfl

/-! ## What a receiver means -/

/-- The receiver of a call means the class: `$this` in that class, or another variable that holds an
object of it, unless it is itself a member that an arrow follows; or a class name or a word for a
class before a double colon. -/
inductive Meant (db : Symbols) (s front r : Site) : String → Prop
  | this {D : String} (kind : r.token.kind = .variable) (text : r.token.text = "$this")
      (plain : front.token.isMemberAccess = true → isMember r = false) (cls : s.cls? = some D) :
      Meant db s front r D
  | variable {D : String} (kind : r.token.kind = .variable) (text : r.token.text ≠ "$this")
      (plain : front.token.isMemberAccess = true → isMember r = false)
      (type : db.typeOf? s.varScope r.token.text = some D) : Meant db s front r D
  | named {D : String} (colon : front.token.isPunct "::" = true)
      (word : r.token.kind = .name ∨ r.token.isRelativeClass = true)
      (cls : s.resolve? db r.token.text = some D) : Meant db s front r D

theorem kind_ne_of_word (h : r.token.kind = .name ∨ r.token.isRelativeClass = true) :
    r.token.kind ≠ .variable := by
  rintro hk
  rcases h with h | h
  · rw [hk] at h; cases h
  · simp [Token.isRelativeClass, hk] at h

theorem variableClass?_eq_some_iff {v : Token} : variableClass? db s v = some D ↔
    (v.text = "$this" ∧ s.cls? = some D) ∨
    (v.text ≠ "$this" ∧ db.typeOf? s.varScope v.text = some D) := by
  unfold variableClass?
  split <;> simp [*]

/-- A double colon is not an arrow. -/
theorem not_isMemberAccess_of_colon (h : front.token.isPunct "::" = true) :
    ¬ front.token.isMemberAccess = true := by
  rw [Token.isMemberAccess_iff, (Token.isPunct_iff.1 h).2]
  rintro ⟨-, ht | ht⟩
  · exact absurd ht (by decide)
  · exact absurd ht (by decide)

theorem meant_of_variable (kind : r.token.kind = .variable)
    (plain : front.token.isMemberAccess = true → isMember r = false)
    (h : variableClass? db s r.token = some D) : Meant db s front r D := by
  rcases variableClass?_eq_some_iff.1 h with ⟨text, cls⟩ | ⟨text, type⟩
  · exact .this kind text plain cls
  · exact .variable kind text plain type

theorem receiverClass?_of_variable (h : CallOf old s front r) (kind : r.token.kind = .variable)
    (plain : front.token.isMemberAccess = true → isMember r = false) :
    receiverClass? db s front r = variableClass? db s r.token := by
  rw [receiverClass?]
  by_cases hcolon : front.token.isPunct "::" = true
  · have hword : ¬ (r.token.kind = .name || r.token.isRelativeClass) = true := by
      rw [Bool.or_eq_true, decide_eq_true_eq]
      exact fun hword => kind_ne_of_word hword kind
    rw [if_pos hcolon, if_neg hword, if_pos kind]
  · rw [if_neg hcolon, if_pos (by simp [kind, plain (h.mark.resolve_left hcolon)])]

/-- **What the receiver of a call means is what the call is taken to be for.** -/
theorem receiverClass?_eq_some_iff (h : CallOf old s front r) :
    receiverClass? db s front r = some D ↔ Meant db s front r D := by
  constructor
  · intro hD
    rw [receiverClass?] at hD
    split at hD
    · rename_i hcolon
      split at hD
      · rename_i hword
        exact .named hcolon (by simpa using hword) hD
      split at hD
      · rename_i hkind
        exact meant_of_variable hkind
          (fun harrow => absurd harrow (not_isMemberAccess_of_colon hcolon)) hD
      · cases hD
    · split at hD
      · rename_i hplain
        obtain ⟨hkind, hmember⟩ := by simpa using hplain
        exact meant_of_variable hkind (fun _ => hmember) hD
      · cases hD
  · rintro (⟨kind, text, plain, cls⟩ | ⟨kind, text, plain, type⟩ | ⟨colon, word, cls⟩)
    · rw [receiverClass?_of_variable h kind plain]
      exact variableClass?_eq_some_iff.2 (.inl ⟨text, cls⟩)
    · rw [receiverClass?_of_variable h kind plain]
      exact variableClass?_eq_some_iff.2 (.inr ⟨text, type⟩)
    · rw [receiverClass?, if_pos colon, if_pos (by simpa using word)]
      exact cls

/-! ## The family of a class -/

/-- The proposers that rename the method in the class and in all classes below it. -/
def family (db : Symbols) (cls old new : String) : List Proposer :=
  (cls :: db.descendants cls).map fun c => .methods c old new

/-- What the family proposes in a file, each change once. -/
def familyEdits (db : Symbols) (cls old new : String) (source : Source) : List Edit :=
  ((Findings.ofSource ((family db cls old new).map .proposer) db source).edits.foldl FileEdits.push
    (FileEdits.new source.path)).edits

/-- What a proposer of the family proposes at a call. -/
theorem methodEdits_of_call (h : CallOf old s front r) (target new : String) :
    methodEdits target old new db s =
      (ofReceiver db target (receiverClass? db s front r)).toList.map (replaceToken s new) := by
  rw [methodEdits, if_neg (by simp [h.kind, h.text]), h.before, Option.bind_some,
    methodConfidence_of_call h]
  cases ofReceiver db target (receiverClass? db s front r) <;> rfl

/-- How sure the family is of a call, each of its classes in turn. -/
def opinions (db : Symbols) (cls : String) (receiver : Option String) : List Confidence :=
  (cls :: db.descendants cls).flatMap fun c => (ofReceiver db c receiver).toList

/-- **What is left of the edits at a call** is the strongest of the family's opinions. -/
theorem filter_familyEdits (ha : source.Ascending) (hs : s ∈ Site.all source)
    (h : CallOf old s front r) :
    (familyEdits db cls old new source).filter (·.offset = s.token.offset) =
      merged ((opinions db cls (receiverClass? db s front r)).map (replaceToken s new)) := by
  have hsame : ∀ x y : Edit, x.sameChange y = true →
      decide (x.offset = s.token.offset) = decide (y.offset = s.token.offset) := by
    intro x y hxy
    rw [(sameChange_iff.1 hxy).1]
  have hfamily : ∀ p ∈ family db cls old new, ∀ t, ∀ e ∈ p.edits db t,
      e.offset = t.token.offset := by
    intro p hp t e he
    obtain ⟨c, -, rfl⟩ := List.mem_map.1 hp
    obtain ⟨-, -, -, -, -, -, rfl⟩ := mem_methodEdits.1 he
    rfl
  -- merging looks at one offset at a time, and only the call's own site proposes at its offset
  rw [familyEdits, edits_foldl_push, Findings.ofSource_proposers, filter_merged hsame,
    filter_proposals ha hs hfamily, opinions, family, List.flatMap_map, List.map_flatMap]
  congr 1
  exact List.flatMap_congr fun c _ => methodEdits_of_call h c new

/-- The family is in doubt where the class of the receiver is unknown. -/
theorem opinions_none : .certain ∉ opinions db cls none ∧ opinions db cls none ≠ [] := by
  constructor
  · intro hc
    obtain ⟨c, -, hc⟩ := List.mem_flatMap.1 hc
    cases List.mem_singleton.1 hc
  · exact List.cons_ne_nil _ _

/-- A class of the family is certain of its own objects. -/
theorem certain_mem_opinions (h : D = cls ∨ D ∈ db.descendants cls) :
    .certain ∈ opinions db cls (some D) := by
  refine List.mem_flatMap.2 ⟨D, List.mem_cons.2 h, ?_⟩
  rw [ofReceiver, ofClass, if_pos rfl]
  exact List.mem_singleton_self _

/-- **All classes below one of the family belong to it**, so it says nothing about objects of other
classes. -/
theorem opinions_eq_nil (h : ¬ (D = cls ∨ D ∈ db.descendants cls)) :
    opinions db cls (some D) = [] := by
  rw [not_or, Symbols.mem_descendants_iff, not_and] at h
  obtain ⟨hne, hbelow⟩ := h
  refine List.flatMap_eq_nil_iff.2 fun c hc => ?_
  -- links from `D` to a class of the family would lead on to `cls`
  have hroot : c = cls ∨ Relation.TransGen db.Link c cls :=
    (List.mem_cons.1 hc).imp_right fun hc => (Symbols.mem_descendants_iff.1 hc).2
  have hDc : D ≠ c := by
    rintro rfl
    exact hroot.elim hne (hbelow hne)
  have hup : ¬ db.isAncestor D c = true := by
    intro hup
    have hlinks := Symbols.transGen_of_isAncestor hup
    rcases hroot with rfl | hroot
    · exact hbelow hne hlinks
    · exact hbelow hne (hlinks.trans hroot)
  rw [ofReceiver, ofClass, if_neg hDc, if_neg hup]
  rfl

/-- The merged edits at a call, by the class that it is taken to be for. -/
theorem familyEdits_at_call (ha : source.Ascending) (hs : s ∈ Site.all source)
    (h : CallOf old s front r) :
    (familyEdits db cls old new source).filter (·.offset = s.token.offset) =
      match receiverClass? db s front r with
      | some D =>
        if D = cls ∨ D ∈ db.descendants cls then [replaceToken s new .certain] else []
      | none => [replaceToken s new .ambiguous] := by
  rw [filter_familyEdits ha hs h, merged_replaceToken_eq]
  cases receiverClass? db s front r with
  | none => rw [if_neg opinions_none.1, if_neg opinions_none.2]
  | some D =>
    dsimp only
    by_cases hD : D = cls ∨ D ∈ db.descendants cls
    · rw [if_pos hD, if_pos (certain_mem_opinions hD)]
    · rw [if_neg hD, opinions_eq_nil hD]
      rfl

/-- **A method renamed in a class and all below it leaves no doubt where the class of the receiver is
known**: of the edits of the whole family at such a call, one that is certain is left if the class
belongs to the family, and none if it does not. Where the class is not known, the edit is in
doubt. -/
theorem family_settles_calls (path : Path) (content : String) (db : Symbols)
    (cls old new : String) (hs : s ∈ Site.all (Source.read path content))
    (h : CallOf old s front r) :
    (∀ D, Meant db s front r D →
      (familyEdits db cls old new (Source.read path content)).filter
          (·.offset = s.token.offset) =
        if D = cls ∨ D ∈ db.descendants cls then [replaceToken s new .certain] else []) ∧
    ((∀ D, ¬ Meant db s front r D) →
      (familyEdits db cls old new (Source.read path content)).filter
          (·.offset = s.token.offset) = [replaceToken s new .ambiguous]) := by
  rw [familyEdits_at_call (Source.ascending_read path content) hs h]
  constructor
  · intro D hD
    rw [(receiverClass?_eq_some_iff h).2 hD]
  · intro hnone
    rw [Option.eq_none_iff_forall_ne_some.2 fun D hD => hnone D ((receiverClass?_eq_some_iff h).1 hD)]

/-- A call for an object of a class below the one that the request names. -/
theorem family_settles_calls_below :
    let source := Source.read ⟨"/d.php"⟩ "<?php\nclass D extends C { function f() { $this->old(); } }\n"
    let db := (Symbols.empty.addClass "C" none ⟨"/c.php"⟩).addClass "D" (some "C") ⟨"/d.php"⟩
    ∃ s ∈ Site.all source, ∃ front r, CallOf "old" s front r ∧ Meant db s front r "D" ∧
      (familyEdits db "C" "old" "neu" source).filter (·.offset = s.token.offset) =
        [replaceToken s "neu" .certain] := by
  intro source db
  obtain ⟨s, hs, front, r, hcall, hclass⟩ := exists_call source "old"
    (fun s front r => receiverClass? db s front r = some "D") (by decide +kernel)
  have hmeant : Meant db s front r "D" := (receiverClass?_eq_some_iff hcall).1 (by simpa using hclass)
  have hbelow : "D" ∈ db.descendants "C" := by decide +kernel
  refine ⟨s, hs, front, r, hcall, hmeant, ?_⟩
  rw [(family_settles_calls _ _ db "C" "old" "neu" hs hcall).1 "D" hmeant, if_pos (.inr hbelow)]

/-- A property that has its name from `$this` is no object of the class around it, so a call for it
stays in doubt there. -/
theorem not_certain_of_member_this :
    let source := Source.read ⟨"/p/t.php"⟩
      "<?php\nclass D { function f($x) { $x->$this->old(); } }\n"
    let db := Symbols.empty.addClass "D" none ⟨"/p/t.php"⟩
    ¬ ∀ s ∈ Site.all source, ∀ front r, CallOf "old" s front r → r.token.kind = .variable →
      r.token.text = "$this" → s.cls? = some "D" →
        (familyEdits db "D" "old" "neu" source).filter (·.offset = s.token.offset) =
          [replaceToken s "neu" .certain] := by
  intro source db hall
  obtain ⟨s, hs, front, r, hcall, hq⟩ := exists_call source "old"
    (fun s front r => r.token.kind = .variable ∧ r.token.text = "$this" ∧
      s.cls? = some "D" ∧ receiverClass? db s front r = none) (by decide +kernel)
  obtain ⟨hkind, htext, hcls, hnone⟩ := by simpa using hq
  have hcertain := hall s hs front r hcall hkind htext hcls
  rw [familyEdits_at_call (Source.ascending_read _ _) hs hcall, hnone] at hcertain
  cases hcertain

end Rename

/-! ## Where a family comes from -/

namespace Session

variable {s : Session} {cls old new : String} {children : List String}

theorem proposers_foldl_renameMethod (hnodup : children.Nodup)
    (hfresh : ∀ c ∈ children, (c, old) ∉ s.methods) :
    (children.foldl (fun s c => s.renameMethod c old new false) s).proposers =
      s.proposers ++ children.flatMap fun c => Proposer.ofMethod c old new := by
  induction children generalizing s with
  | nil => rw [List.foldl_nil, List.flatMap_nil, List.append_nil]
  | cons c children ih =>
    obtain ⟨hc, hnodup⟩ := List.nodup_cons.1 hnodup
    obtain ⟨hfresh, hrest⟩ := List.forall_mem_cons.1 hfresh
    have hask : s.renameMethod c old new false =
        { s with
          methods := (c, old) :: s.methods
          followUps := s.followUps ++ []
          proposers := s.proposers ++ Proposer.ofMethod c old new
          needsFacts := true
          requests := s.requests ++ [.renameMethod c old new false] } := by
      rw [renameMethod, if_neg (by simpa using hfresh)]
      rfl
    rw [List.foldl_cons, hask, ih hnodup, List.flatMap_cons, List.append_assoc]
    -- the request for `c` takes nothing from the other children
    intro d hd hmem
    rcases List.mem_cons.1 hmem with heq | hmem
    · obtain rfl := (Prod.mk.inj heq).1
      exact hc hd
    · exact hrest d hd hmem

/-- **A method renamed with all that inherit it** gets the proposers of the whole family, if none of
its classes has been asked for before. -/
theorem proposers_follow_descendants
    (hfresh : ∀ c ∈ cls :: s.db.descendants cls, (c, old) ∉ s.methods) (d : Disk) :
    (follow d (s.renameMethod cls old new true) (.descendants cls old new)).proposers =
      s.proposers ++ (cls :: s.db.descendants cls).flatMap fun c => Proposer.ofMethod c old new := by
  obtain ⟨hroot, hbelow⟩ := List.forall_mem_cons.1 hfresh
  have hnodup : (s.db.descendants cls).Nodup := (Ordered.ascending_ofList _).nodup
  rw [renameMethod, if_neg (by simpa using hroot), follow, proposers_foldl_renameMethod hnodup,
    List.flatMap_cons, List.append_assoc]
  intro c hc hmem
  rcases List.mem_cons.1 hmem with heq | hmem
  · obtain rfl := (Prod.mk.inj heq).1
    exact (Symbols.mem_descendants_iff.1 hc).1 rfl
  · exact hbelow c hc hmem

end Session

end PhpRename
