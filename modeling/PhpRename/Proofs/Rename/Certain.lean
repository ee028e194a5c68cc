import PhpRename.Proofs.Edit.Clash
import PhpRename.Proofs.Edit.Merge
import PhpRename.Proofs.Mention.Word
import PhpRename.Proofs.Path.Parts
import PhpRename.Proofs.Rename.Proposed
import PhpRename.Proofs.Survey.Proposals

/-!
# What is certain does not compete

At one site at most one change is certain, however many proposers look at it: the kind of the
token tells names, annotations and includes apart, a class is not named where a method is
(`not_mem_classEdits`), and a method is certain for one class only (`methodConfidence_inj`).

* `Proposer.Agree`: proposers want the same done with what has one name.
* `Proposer.apart_of_certain`: of such proposers, two certain edits of a proper file make the same
  change or do not compete.
-/

namespace PhpRename.Rename

open Php Text

variable {db : Symbols} {s front : Site} {e f : Edit} {target target' old old' new new' : String}
variable {c : Confidence}

/-! ## Methods -/

theorem ofReceiver_eq_certain {cls : Option String}
    (h : ofReceiver db target cls = some .certain) : cls = some target := by
  cases cls with
  | none => cases h
  | some c =>
    rw [ofReceiver, ofClass] at h
    split at h
    · rename_i he; rw [he]
    · split at h <;> cases h

/-- The class that makes a call certain does not depend on the method. -/
theorem ofReceiver_inj {cls : Option String} (h : ofReceiver db target cls = some .certain)
    (h' : ofReceiver db target' cls = some .certain) : target = target' := by
  have he := ofReceiver_eq_certain h
  rw [ofReceiver_eq_certain h'] at he
  exact (Option.some.inj he).symm

theorem staticCall_inj {q : Token} (h : staticCall db target s q = some .certain)
    (h' : staticCall db target' s q = some .certain) : target = target' := by
  unfold staticCall at h h'
  split at h
  · rename_i hq
    rw [if_pos hq] at h'
    exact ofReceiver_inj h h'
  rename_i hq
  rw [if_neg hq] at h'
  split at h
  · rename_i hv
    rw [if_pos hv] at h'
    exact ofReceiver_inj h h'
  · cases h

theorem memberCall_inj {r : Site} (h : memberCall db target s r = some .certain)
    (h' : memberCall db target' s r = some .certain) : target = target' := by
  unfold memberCall at h h'
  dsimp only at h h'
  split at h
  · rename_i hr
    rw [if_pos hr] at h'
    exact ofReceiver_inj h h'
  · cases h

/-- What tells how the name behind `front` is used: what is before it, or before the mark for a
reference. -/
def declarer (front : Site) : Site :=
  if front.token.isPunct "&" then front.prevCode?.getD front else front

/-- A method is named where it is declared in its class, or where it is called behind a double colon
or an arrow. -/
theorem methodConfidence_cases (h : methodConfidence db target s front = some c) :
    ((declarer front).token.isKeyword "function" = true ∧ s.cls? = some target ∧ c = .certain) ∨
    ((declarer front).token.isPunct "::" = true ∧ s.isCalled = true ∧
      ∃ q, front.prev? = some q ∧ staticCall db target s q = some c) ∨
    ((declarer front).token.isMemberAccess = true ∧ s.isCalled = true ∧
      ∃ r, front.prevCode? = some r ∧ memberCall db target s r = some c) := by
  change (if (declarer front).token.isKeyword "function" then
      if s.cls? = some target then some .certain else none
    else if (declarer front).token.isPunct "::" && s.isCalled then
      front.prev?.bind (staticCall db target s)
    else if (declarer front).token.isMemberAccess && s.isCalled then
      front.prevCode?.bind (memberCall db target s)
    else none) = some c at h
  split at h
  · rename_i hfn
    split at h
    · rename_i hcls
      cases h
      exact .inl ⟨hfn, hcls, rfl⟩
    · cases h
  split at h
  · rename_i hstatic
    rw [Bool.and_eq_true] at hstatic
    exact .inr (.inl ⟨hstatic.1, hstatic.2, Option.bind_eq_some_iff.1 h⟩)
  split at h
  · rename_i hmember
    rw [Bool.and_eq_true] at hmember
    exact .inr (.inr ⟨hmember.1, hmember.2, Option.bind_eq_some_iff.1 h⟩)
  · cases h

/-- **A method is certain for one class only.** -/
theorem methodConfidence_inj (h : methodConfidence db target s front = some .certain)
    (h' : methodConfidence db target' s front = some .certain) : target = target' := by
  rcases methodConfidence_cases h with ⟨hfn, hcls, -⟩ | ⟨hstatic, -, q, hq, hcall⟩ |
      ⟨hmember, -, r, hr, hcall⟩ <;>
    rcases methodConfidence_cases h' with ⟨hfn', hcls', -⟩ | ⟨hstatic', -, q', hq', hcall'⟩ |
      ⟨hmember', -, r', hr', hcall'⟩
  case inl.inl => rw [hcls] at hcls'; exact Option.some.inj hcls'
  case inr.inl.inr.inl =>
    obtain rfl : q = q' := Option.some.inj (hq.symm.trans hq')
    exact staticCall_inj hcall hcall'
  case inr.inr.inr.inr =>
    obtain rfl : r = r' := Option.some.inj (hr.symm.trans hr')
    exact memberCall_inj hcall hcall'
  -- the name is used in one way only
  all_goals simp_all [Token.isPunct_iff, Token.isMemberAccess_iff, Token.isKeyword]

/-! ## Classes -/

/-- A name is not joined with what stands before it, but by a backslash. -/
theorem beforeQualified_eq {t p : Token} (ht : t.kind = .name) (hp : p.isPunct "\\" = false)
    (before : List Token) : beforeQualified t (p :: before) = some p := by
  have hname : t.isPunct "\\" = false := by simp [Token.isPunct, ht]
  have hjoins : joins p t = false := by simp [joins, hp, hname]
  rw [beforeQualified, hjoins, if_neg Bool.false_ne_true]

/-- **A class is not named where a method is.** -/
theorem not_mem_classEdits (hcalled : ∀ site, front.token.isPunct "&" = true →
      front.prevCode? = some site → site.token.isKeyword "function" = true → s.isCalled = true)
    (hfront : s.prevCode? = some front) (h : methodConfidence db target s front = some c) :
    e ∉ classEdits old new s := by
  intro he
  obtain ⟨hkind, -, hmember, hnew, -⟩ := mem_classEdits.1 he
  have hcase := methodConfidence_cases h
  by_cases hamp : front.token.isPunct "&" = true
  · -- nothing is made anew behind the mark for a reference, so a class would not be called
    have hfront' := Token.isPunct_iff.1 hamp
    have hback : front.token.isPunct "\\" = false := by simp [Token.isPunct, hfront'.2]
    have hnotnew : front.token.isKeyword "new" = false := by simp [Token.isKeyword, hfront'.1]
    have hcall : s.isCalled = true := by
      rcases hcase with ⟨hfn, -⟩ | ⟨-, hcall, -⟩ | ⟨-, hcall, -⟩
      · rw [declarer, if_pos hamp] at hfn
        cases hprev : front.prevCode? with
        | none =>
          rw [hprev, Option.getD_none] at hfn
          exact absurd hamp (Token.not_isPunct_of_isKeyword hfn)
        | some site =>
          rw [hprev, Option.getD_some] at hfn
          exact hcalled site hamp hprev hfn
      · exact hcall
      · exact hcall
    have hany := hnew hcall
    rw [Site.code_before hfront, beforeQualified_eq hkind hback, Option.any_some, hnotnew] at hany
    cases hany
  · -- what the method is named behind directly is nothing that a class is named behind
    rw [declarer, if_neg hamp] at hcase
    have hback : front.token.isPunct "\\" = false := by
      rw [Bool.eq_false_iff, ne_eq, Token.isPunct_iff]
      rintro ⟨hpunct, htext⟩
      rcases hcase with ⟨hfn, -⟩ | ⟨hstatic, -, -⟩ | ⟨hmem, -, -⟩
      · rw [Token.kind_of_isKeyword hfn] at hpunct; cases hpunct
      · rw [Token.isPunct_iff, htext] at hstatic; exact absurd hstatic.2 (by decide)
      · rw [Token.isMemberAccess_iff, htext] at hmem; exact absurd hmem.2 (by decide)
    have hprec : precedesMember front.token = true := by
      unfold precedesMember
      rcases hcase with ⟨hfn, -⟩ | ⟨hstatic, -, -⟩ | ⟨hmem, -, -⟩
      · simp [hfn]
      · simp [hstatic]
      · simp [hmem]
    rw [Site.code_before hfront, beforeQualified_eq hkind hback] at hmember
    exact hmember hprec

/-! ## Annotations and includes -/

theorem annotationEdits_size (h : e ∈ annotationEdits old new s) :
    e.length = old.utf8ByteSize ∧ e.replacement = new := by
  obtain ⟨-, start, types, place, -, -, rfl⟩ := mem_annotationEdits.1 h
  exact ⟨rfl, rfl⟩

/-- Two annotations of one doc comment name one class at one place, or do not compete. -/
theorem annotationEdits_apart (hw : Mention.IsWord old.toList) (hw' : Mention.IsWord old'.toList)
    (he : e ∈ annotationEdits old new s) (hf : f ∈ annotationEdits old' new' s) :
    (old = old' ∧ e.offset = f.offset) ∨ e.overlaps f = false := by
  have hpos := utf8ByteSize_pos hw.ne
  have hpos' := utf8ByteSize_pos hw'.ne
  obtain ⟨-, start, types, place, ht, hp, rfl⟩ := mem_annotationEdits.1 he
  obtain ⟨-, start', types', place', ht', hp', rfl⟩ := mem_annotationEdits.1 hf
  have hin := (Mention.standsAt_of_mem_wordPlaces hp).stop_le
  have hin' := (Mention.standsAt_of_mem_wordPlaces hp').stop_le
  rw [utf8ByteSize_eq_width] at hpos hpos'
  -- edits that end where the other begins, or before, do not compete
  have hapart : start + place + width old.toList ≤ start' + place' ∨
      start' + place' + width old'.toList ≤ start + place →
      (replaceWithin s (start + place) old.utf8ByteSize new .certain).overlaps
        (replaceWithin s (start' + place') old'.utf8ByteSize new' .certain) = false := by
    intro hle
    rw [Bool.eq_false_iff, ne_eq, Edit.overlaps_iff]
    simp only [replaceWithin, Edit.stop, utf8ByteSize_eq_width]
    omega
  rcases Doc.typeLists_apart ht ht' with heq | hlt
  · cases heq
    have hword := Mention.wordIn_of_mem_wordPlaces hw hp
    have hword' := Mention.wordIn_of_mem_wordPlaces hw' hp'
    rcases Mention.wordIn_apart hw hw' hword hword' with ⟨rfl, hold⟩ | hle
    · exact .inl ⟨String.toList_injective hold, rfl⟩
    · exact .inr (hapart (by omega))
  · dsimp only at hlt
    exact .inr (hapart (by omega))

/-- An include that is certain to be meant names the file that moves. -/
theorem movedLiteral?_eq_certain {old new : Path} {t : Target} {p : Path} {literal : String}
    (h : movedLiteral? old new t p = some (literal, .certain)) :
    (t.resolve p == old) = true ∧ literal = rewritten old new t p := by
  rw [movedLiteral?] at h
  split at h
  · rename_i hres
    cases h
    exact ⟨hres, rfl⟩
  · obtain ⟨guess, -, hg⟩ := Option.map_eq_some_iff.1 h
    cases hg

end PhpRename.Rename

namespace PhpRename.Proposer

open Php Text

/-- The proposers want the same done with what has one name, and the names that they look for are
names: those in annotations are words, and none is empty. -/
structure Agree (ps : List Proposer) : Prop where
  classes : ∀ {old new new'}, classes old new ∈ ps → classes old new' ∈ ps → new = new'
  annotations : ∀ {old new new'}, annotations old new ∈ ps → annotations old new' ∈ ps → new = new'
  methods : ∀ {cls old new new'}, methods cls old new ∈ ps → methods cls old new' ∈ ps → new = new'
  includes : ∀ {old new old' new'}, includes old new ∈ ps → includes old' new' ∈ ps →
    (old == old') = true → old = old' ∧ new = new'
  class_ne : ∀ {old new}, .classes old new ∈ ps → old ≠ ""
  annotation_word : ∀ {old new}, .annotations old new ∈ ps → Mention.IsWord old.toList
  method_ne : ∀ {cls old new}, .methods cls old new ∈ ps → old ≠ ""

variable {ps : List Proposer} {p q : Proposer} {db : Symbols} {s t : Site} {e f : Edit}
variable {source : Source}

theorem ambiguous_of_mention {rules : List Mention.Rule} (h : e ∈ Rename.mentionEdits rules s) :
    e.confidence = .ambiguous := by
  obtain ⟨place, -, rfl⟩ := Rename.mem_mentionEdits.1 h
  rfl

/-- What a proposer may be certain of at a site: a name, an annotation or an include, as the kind of
the token tells. -/
inductive CertainAt (db : Symbols) (s : Site) : Proposer → Edit → Prop
  | classes (new : String) (kind : s.token.kind = .name)
      (mem : Rename.replaceToken s new .certain ∈ Rename.classEdits s.token.text new s) :
      CertainAt db s (.classes s.token.text new) (Rename.replaceToken s new .certain)
  | methods (cls new : String) (front : Site) (kind : s.token.kind = .name)
      (prev : s.prevCode? = some front)
      (certain : Rename.methodConfidence db cls s front = some .certain) :
      CertainAt db s (.methods cls s.token.text new) (Rename.replaceToken s new .certain)
  | annotations (old new : String) (e : Edit) (kind : s.token.kind = .docComment)
      (mem : e ∈ Rename.annotationEdits old new s) : CertainAt db s (.annotations old new) e
  | includes (old new : Path) (t : Target) (kind : s.token.kind = .string)
      (target : s.target? = some t) (resolves : (t.resolve s.path == old) = true) :
      CertainAt db s (.includes old new) ⟨s.path, t.offset, t.literal.utf8ByteSize,
        Rename.rewritten old new t s.path, .certain, s.token.line⟩

theorem certainAt_of_mem (h : e ∈ p.edits db s) (hc : e.confidence = .certain) :
    CertainAt db s p e := by
  cases p with
  | classes old new =>
    obtain ⟨hk, rfl, -, -, rfl⟩ := Rename.mem_classEdits.1 h
    exact .classes new hk h
  | methods cls old new =>
    obtain ⟨hk, rfl, front, c, hprev, hconf, rfl⟩ := Rename.mem_methodEdits.1 h
    obtain rfl : c = .certain := hc
    exact .methods cls new front hk hprev hconf
  | annotations old new => exact .annotations old new e (Rename.mem_annotationEdits.1 h).1 h
  | includes old new =>
    obtain ⟨t, literal, c, ht, hmoved, -, rfl⟩ := Rename.mem_includeEdits.1 h
    obtain rfl : c = .certain := hc
    obtain ⟨hres, rfl⟩ := Rename.movedLiteral?_eq_certain hmoved
    have hk := (Token.literal?_eq_some (Site.target?_eq_some ht).1).1
    exact .includes old new t hk ht hres
  | comments rules =>
    rw [ambiguous_of_mention (Rename.mem_commentEdits.1 h).2] at hc
    cases hc
  | strings rules =>
    rw [ambiguous_of_mention (Rename.mem_stringEdits.1 h).2.2] at hc
    cases hc

/-- **At one site at most one change is certain.** -/
theorem apart_of_certain_at (hps : Agree ps) (hp : p ∈ ps) (hq : q ∈ ps)
    (hcalled : ∀ amp site, s.token.kind = .name → s.prevCode? = some amp →
      amp.token.isPunct "&" = true → amp.prevCode? = some site →
      site.token.isKeyword "function" = true → s.isCalled = true)
    (he : e ∈ p.edits db s) (hf : f ∈ q.edits db s) (hec : e.confidence = .certain)
    (hfc : f.confidence = .certain) : e.sameChange f = true ∨ e.overlaps f = false := by
  cases certainAt_of_mem he hec <;> cases certainAt_of_mem hf hfc
  case classes.classes new hk hmem new' hk' hmem' =>
    obtain rfl := hps.classes hp hq
    exact .inl (Edit.sameChange_self _)
  case classes.methods new hk hmem cls new' front hk' hprev hconf =>
    exact absurd hmem (Rename.not_mem_classEdits (fun site hamp => hcalled _ site hk hprev hamp)
      hprev hconf)
  case methods.classes cls new front hk hprev hconf new' hk' hmem =>
    exact absurd hmem (Rename.not_mem_classEdits (fun site hamp => hcalled _ site hk hprev hamp)
      hprev hconf)
  case methods.methods cls new front hk hprev hconf cls' new' front' hk' hprev' hconf' =>
    obtain rfl : front = front' := Option.some.inj (hprev.symm.trans hprev')
    obtain rfl := Rename.methodConfidence_inj hconf hconf'
    obtain rfl := hps.methods hp hq
    exact .inl (Edit.sameChange_self _)
  case annotations.annotations old new hk hmem old' new' hk' hmem' =>
    obtain ⟨hlen, hnew⟩ := Rename.annotationEdits_size hmem
    obtain ⟨hlen', hnew'⟩ := Rename.annotationEdits_size hmem'
    rcases Rename.annotationEdits_apart (hps.annotation_word hp) (hps.annotation_word hq) hmem hmem'
      with ⟨rfl, hoff⟩ | hapart
    · obtain rfl := hps.annotations hp hq
      exact .inl (Edit.sameChange_iff.2 ⟨hoff, hlen.trans hlen'.symm, hnew.trans hnew'.symm⟩)
    · exact .inr hapart
  case includes.includes old new t hk ht hres old' new' t' hk' ht' hres' =>
    obtain rfl : t = t' := Option.some.inj (ht.symm.trans ht')
    have hold : (old == old') = true :=
      Path.beq_iff.2 ((Path.beq_iff.1 hres).symm.trans (Path.beq_iff.1 hres'))
    obtain ⟨rfl, rfl⟩ := hps.includes hp hq hold
    exact .inl (Edit.sameChange_self _)
  -- the token is of one kind only
  all_goals simp_all only [reduceCtorEq]

/-- What puts text in place of something begins in its token and does not leave it. -/
theorem bounds_of_length_pos (he : e ∈ p.edits db s) (hlen : 0 < e.length) :
    s.token.offset ≤ e.offset ∧ e.offset < s.token.stop ∧ e.stop ≤ s.token.stop := by
  obtain ⟨front, text, hrep, -⟩ := exists_replaced he
  have hge := hrep.offset_ge
  have hle := hrep.stop_le
  unfold Edit.stop at *
  omega

/-- What is certain begins in its token and does not leave it. -/
theorem bounds_of_certain (hps : Agree ps) (hp : p ∈ ps) (he : e ∈ p.edits db s)
    (hec : e.confidence = .certain) :
    s.token.offset ≤ e.offset ∧ e.offset < s.token.stop ∧ e.stop ≤ s.token.stop := by
  -- only an include may put text in place of nothing, between the quotes of its literal
  cases certainAt_of_mem he hec with
  | classes new hk hmem => exact bounds_of_length_pos he (utf8ByteSize_pos (hps.class_ne hp))
  | methods cls new front hk hprev hconf =>
    exact bounds_of_length_pos he (utf8ByteSize_pos (hps.method_ne hp))
  | annotations old new e hk hmem =>
    refine bounds_of_length_pos he ?_
    rw [(Rename.annotationEdits_size hmem).1]
    exact utf8ByteSize_pos (hps.annotation_word hp).ne
  | includes old new t hk ht hres =>
    obtain ⟨hlit, hoff⟩ := Site.target?_eq_some ht
    obtain ⟨-, quote, hquote, htext⟩ := Token.literal?_eq_some hlit
    have hw : width [quote] = 1 := by rcases hquote with rfl | rfl <;> rfl
    have hstop : s.token.stop = s.token.offset + 1 + t.literal.utf8ByteSize + 1 := by
      rw [Token.stop, utf8ByteSize_eq_width, htext, ← List.singleton_append, List.append_assoc,
        width_append, width_append, hw, utf8ByteSize_eq_width]
      omega
    obtain ⟨front, text, hrep, -⟩ := exists_replaced he
    refine ⟨hrep.offset_ge, ?_, hrep.stop_le⟩
    dsimp only
    omega

theorem file_of_mem_proposals (h : e ∈ proposals ps db source) : e.file = source.path := by
  obtain ⟨s, hs, p, -, he⟩ := mem_proposals.1 h
  obtain ⟨front, text, hrep, -⟩ := exists_replaced he
  rw [hrep.file, Site.path, Site.source_of_mem_all hs]

/-- What is proposed for one file is proposed where that was looked at, if each file has its path. -/
theorem source_eq_of_proposals {sources : List Source} {x y : Source}
    (hpaths : ∀ x ∈ sources, ∀ y ∈ sources, (x.path == y.path) = true → x = y)
    (hx : x ∈ sources) (hy : y ∈ sources) (he : e ∈ proposals ps db x) (hf : f ∈ proposals ps db y)
    (h : (e.file == f.file) = true) : x = y := by
  rw [file_of_mem_proposals he, file_of_mem_proposals hf] at h
  exact hpaths x hx y hy h

/-- What lies in tokens that share no bytes does not compete. -/
theorem overlaps_eq_false (h : s.token.Apart t.token)
    (he : s.token.offset ≤ e.offset ∧ e.offset < s.token.stop ∧ e.stop ≤ s.token.stop)
    (hf : t.token.offset ≤ f.offset ∧ f.offset < t.token.stop ∧ f.stop ≤ t.token.stop) :
    e.overlaps f = false := by
  rw [Bool.eq_false_iff, ne_eq, Edit.overlaps_iff]
  -- the later of the two offsets would be a byte of both tokens
  have he' := h e.offset he.1 he.2.1
  have hf' := h f.offset
  omega

/-- **In a proper file, what is certain does not compete**, if it is not the same change. -/
theorem apart_of_certain (hps : Agree ps) (hsource : source.Proper)
    (he : e ∈ proposals ps db source) (hf : f ∈ proposals ps db source)
    (hec : e.confidence = .certain) (hfc : f.confidence = .certain) :
    e.sameChange f = true ∨ e.overlaps f = false := by
  obtain ⟨s, hs, p, hp, he⟩ := mem_proposals.1 he
  obtain ⟨t, ht, q, hq, hf⟩ := mem_proposals.1 hf
  rcases Site.eq_or_apart hsource.apart hs ht with rfl | hapart
  · exact apart_of_certain_at hps hp hq (hsource.called s hs) he hf hec hfc
  · exact .inr (overlaps_eq_false hapart (bounds_of_certain hps hp he hec)
      (bounds_of_certain hps hq hf hfc))

end PhpRename.Proposer
