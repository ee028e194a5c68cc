import PhpRename.Proofs.Php.Uncommented
import PhpRename.Proofs.Survey.Looks
import PhpRename.Proofs.Survey.Proposals

/-!
# Comments do not change what is read off code

Proposers of edits in code, and observers, look at a site and at the code around it. So they find the
same in a file with plain comments and in the file without them, and at a plain comment they find
nothing. Observers read names of several segments too, which a comment in the midst of them cuts off.

* `Proposer.edits_eq`: what proposers find in code is the same at sites with the same code around them.
* `Observer.facts_eq`: so is what observers learn, if names are whole.
* `plain_comments_ignored`: what both find in files with plain comments and without them.
-/

namespace PhpRename

open Php Site

/-! ## Edits -/

namespace Rename

variable {s t front front' r r' : Site} {db : Symbols} {target : String}

theorem replaceToken_eq (h : SameCode s t) (new : String) (c : Confidence) :
    replaceToken s new c = replaceToken t new c := by
  rw [replaceToken, replaceToken, h.path, h.token]

theorem classEdits_eq (h : SameCode s t) (old new : String) :
    classEdits old new s = classEdits old new t := by
  rw [classEdits, classEdits, h.token, h.before, h.isCalled_eq, replaceToken_eq h]

theorem variableClass?_eq (h : SameCode s t) (v : Token) :
    variableClass? db s v = variableClass? db t v := by
  rw [variableClass?, variableClass?, h.cls?_eq, h.varScope_eq]

theorem staticCall_eq (h : SameCode s t) : staticCall db target s = staticCall db target t := by
  funext q
  rw [staticCall, staticCall, h.resolve?_eq, variableClass?_eq h]

theorem memberCall_eq (h : SameCode s t) (hr : SameCode r r') :
    memberCall db target s r = memberCall db target t r' := by
  rw [memberCall, memberCall, hr.prev?_eq, hr.token, variableClass?_eq h]

theorem methodConfidence_eq (h : SameCode s t) (hfront : SameCode front front') :
    methodConfidence db target s front = methodConfidence db target t front' := by
  have hdeclarer : SameCode (if front.token.isPunct "&" then front.prevCode?.getD front else front)
      (if front'.token.isPunct "&" then front'.prevCode?.getD front' else front') := by
    rw [hfront.token]
    split
    · rcases rel_cases hfront.prevCode? with ⟨hs, ht⟩ | ⟨d, d', hs, ht, hd⟩
      · rw [hs, ht]; exact hfront
      · rw [hs, ht]; exact hd
    · exact hfront
  have hmember : front.prevCode?.bind (memberCall db target s) =
      front'.prevCode?.bind (memberCall db target t) :=
    bind_eq_of_rel hfront.prevCode? fun _ _ => memberCall_eq h
  rw [methodConfidence, methodConfidence, hdeclarer.token, h.cls?_eq, h.isCalled_eq, hfront.prev?_eq,
    staticCall_eq h, hmember]

theorem methodEdits_eq (h : SameCode s t) (target old new : String) (db : Symbols) :
    methodEdits target old new db s = methodEdits target old new db t := by
  have hconfidence : s.prevCode?.bind (methodConfidence db target s) =
      t.prevCode?.bind (methodConfidence db target t) :=
    bind_eq_of_rel h.prevCode? fun _ _ => methodConfidence_eq h
  rw [methodEdits, methodEdits, h.token, hconfidence]
  simp only [replaceToken_eq h]

theorem includeEdits_eq (h : SameCode s t) (old new : Path) :
    includeEdits old new s = includeEdits old new t := by
  rw [includeEdits, includeEdits, h.target?_eq, h.path, h.token]

end Rename

namespace Proposer

/-- The proposer looks for names and includes in code. -/
def readsCode : Proposer → Bool
  | classes .. | methods .. | includes .. => true
  | annotations .. | comments .. | strings .. => false

variable {p : Proposer} {s t : Site}

/-- **What a proposer finds in code** depends on the token and the code around it. -/
theorem edits_eq (hp : p.readsCode = true) (h : SameCode s t) (db : Symbols) :
    p.edits db s = p.edits db t := by
  cases p with
  | classes old new => exact Rename.classEdits_eq h old new
  | methods cls old new => exact Rename.methodEdits_eq h cls old new db
  | includes old new => exact Rename.includeEdits_eq h old new
  | annotations | comments | strings => cases hp

/-- There is no code in a comment. -/
theorem edits_of_plain (hp : p.readsCode = true) (h : s.token.isPlainComment = true) (db : Symbols) :
    p.edits db s = [] := by
  have hkind : s.token.kind = .comment := of_decide_eq_true h
  cases p with
  | classes => simp [edits, Rename.classEdits, hkind]
  | methods => simp [edits, Rename.methodEdits, hkind]
  | includes => simp [edits, Rename.includeEdits, target?, Token.literal?, hkind]
  | annotations | comments | strings => cases hp

/-- **Plain comments do not change what is proposed in code.** -/
theorem proposals_uncommented {ps : List Proposer} (hps : ∀ p ∈ ps, p.readsCode = true)
    (db : Symbols) (source : Source) :
    proposals ps db source.uncommented = proposals ps db source := by
  have hedits : ∀ s : Site, (ps.flatMap fun p => p.edits db s.uncommented) =
      ps.flatMap fun p => p.edits db s := fun s =>
    List.flatMap_congr fun p hp => (edits_eq (hps p hp) (sameCode_uncommented s) db).symm
  rw [proposals, proposals, all_uncommented, List.flatMap_map]
  generalize all source = sites
  induction sites with
  | nil => rfl
  | cons s sites ih =>
    rw [List.flatMap_cons, ← ih]
    cases hplain : s.token.isPlainComment with
    | false =>
      rw [List.filter_cons_of_pos (by simp [hplain]), List.flatMap_cons, hedits]
    | true =>
      have hnone : (ps.flatMap fun p => p.edits db s) = [] :=
        List.flatMap_eq_nil_iff.2 fun p hp => edits_of_plain (hps p hp) hplain db
      rw [List.filter_cons_of_neg (by simp [hplain]), hnone, List.nil_append]

end Proposer

/-! ## Facts -/

namespace Facts

variable {s t assign assign' : Site} {db : Symbols} {n m : ℕ}

theorem globals_eq (h : SameCode s t) : globals s = globals t := by
  rw [globals, globals, h.token, h.after, h.varScope_eq]

theorem hinted_eq (h : SameCode s t) (db : Symbols) : hinted s db = hinted t db := by
  have hresolve : s.resolve? db = t.resolve? db := funext (h.resolve?_eq db)
  rw [hinted, hinted, h.token, h.inClassBody_eq, h.before, hresolve, h.varScope_eq]

theorem included_eq (h : SameCode s t) : included s = included t := by
  rw [included, included, h.target?_eq, h.path]

/-- The function behind modifiers, with steps enough for all the code behind the site. -/
theorem functionAfter?_eq (h : SameCode s t) (hn : (code s.after).length ≤ n)
    (hm : (code t.after).length ≤ m) :
    Option.Rel SameCode (functionAfter? n s) (functionAfter? m t) := by
  induction n generalizing m s t with
  | zero =>
    have hnone : t.nextCode? = none := by
      cases ht : t.nextCode? with
      | none => rfl
      | some next =>
        rw [h.after, (code_nextCode? ht).1] at hn
        cases hn
    cases m <;> simp [functionAfter?, hnone]
  | succ n ih =>
    rcases rel_cases h.nextCode? with ⟨hs, ht⟩ | ⟨next, next', hs, ht, hnext⟩
    · cases m <;> simp [functionAfter?, hs, ht]
    rw [(code_nextCode? hs).1, List.length_cons] at hn
    rw [(code_nextCode? ht).1, List.length_cons] at hm
    obtain ⟨m, rfl⟩ : ∃ k, m = k + 1 := ⟨m - 1, by omega⟩
    rw [functionAfter?, functionAfter?, hs, ht]
    dsimp only
    rw [← hnext.token]
    split
    · exact .some hnext
    split
    · exact ih hnext (by omega) (by omega)
    · exact .none

theorem documented?_eq (h : SameCode s t) : Option.Rel SameCode (documented? s) (documented? t) :=
  functionAfter?_eq h (List.length_filter_le ..) (List.length_filter_le ..)

theorem taggedFacts_eq (h : SameCode s t) (a : Doc.TypedVar) :
    taggedFacts s db a = taggedFacts t db a := by
  have hresolve : s.resolve? db = t.resolve? db := funext (h.resolve?_eq db)
  rw [taggedFacts, taggedFacts, hresolve, h.inClassBody_eq, h.varScope_eq]
  rcases rel_cases (documented?_eq h) with ⟨hs, ht⟩ | ⟨f, f', hs, ht, hf⟩ <;>
    rcases rel_cases h.nextCode? with ⟨hs', ht'⟩ | ⟨next, next', hs', ht', hnext⟩
  · rw [hs, ht, hs', ht']
  · rw [hs, ht, hs', ht']
    dsimp only
    rw [hnext.token, hnext.varScope_eq]
  · rw [hs, ht, hs', ht']
    dsimp only
    rw [hf.varScope_eq]
  · rw [hs, ht, hs', ht']
    dsimp only
    rw [hf.varScope_eq, hnext.token, hnext.varScope_eq]

theorem annotated_eq (h : SameCode s t) (db : Symbols) : annotated s db = annotated t db := by
  rw [annotated, annotated, h.token, funext (taggedFacts_eq h)]

/-- The class of a new object, for a name that is whole. -/
theorem created?_eq (h : SameCode s t) (hassign : Cleared assign assign') :
    created? s assign db = created? t assign' db := by
  -- behind the keyword a name is read, and it means the same
  have hbehind : ∀ new new' : Site, Cleared new new' →
      (if !new.token.isKeyword "new" then none
        else new.nextCode?.bind fun start => start.className?.bind fun read => s.resolve? db read.1) =
      if !new'.token.isKeyword "new" then none
        else new'.nextCode?.bind fun start => start.className?.bind fun read => t.resolve? db read.1 := by
    intro new new' hnew
    rw [← hnew.token]
    split
    · rfl
    refine bind_eq_of_rel hnew.nextCode? fun start start' hstart => ?_
    refine bind_eq_of_rel hstart.className? ?_
    rintro ⟨name, last⟩ ⟨name', last'⟩ ⟨hname, -⟩
    obtain rfl : name = name' := hname
    exact h.resolve?_eq db name
  refine bind_eq_of_rel hassign.nextCode? fun first first' hfirst => ?_
  dsimp only
  rw [← hfirst.token]
  split
  · exact bind_eq_of_rel hfirst.nextCode? hbehind
  · exact hbehind first first' hfirst

theorem assigned_eq_cleared (h : Cleared s t) (db : Symbols) : assigned s db = assigned t db := by
  have hsame := h.toSameCode
  rw [assigned, assigned, hsame.token, hsame.inClassBody_eq, hsame.prev?_eq, hsame.varScope_eq]
  rcases rel_cases h.nextCode? with ⟨hs, ht⟩ | ⟨assign, assign', hs, ht, hassign⟩
  · rw [hs, ht]
  · rw [hs, ht]
    dsimp only
    rw [hassign.token, created?_eq hsame hassign]

theorem clause_eq_cleared (w : String) {s? t? : Option Site} (h : Option.Rel Cleared s? t?) :
    (clause w s?).1 = (clause w t?).1 ∧ Option.Rel Cleared (clause w s?).2 (clause w t?).2 := by
  rcases rel_cases h with ⟨rfl, rfl⟩ | ⟨s, t, rfl, rfl, hst⟩
  · exact ⟨rfl, .none⟩
  rw [clause, clause, ← hst.token]
  split
  · exact Cleared.namesFrom hst.nextCode?
      (Nat.le_succ_of_le (length_tokensFrom_nextCode? s))
      (Nat.le_succ_of_le (length_tokensFrom_nextCode? t))
  · exact ⟨rfl, .some hst⟩

theorem declared_eq_cleared (h : Cleared s t) : declared s = declared t := by
  have hsame := h.toSameCode
  rw [declared, declared, hsame.token, hsame.prev?_eq, hsame.path]
  rcases rel_cases h.nextCode? with ⟨hs, ht⟩ | ⟨name, name', hs, ht, hname⟩
  · rw [hs, ht]
  obtain ⟨hextended, hafter⟩ := clause_eq_cleared "extends" hname.nextCode?
  obtain ⟨himplemented, -⟩ := clause_eq_cleared "implements" hafter
  rw [hs, ht]
  dsimp only
  rw [hname.token, hextended, himplemented]

end Facts

namespace Observer

variable {s t : Site} {db : Symbols}

/-- **What an observer learns** depends on the token and the code around it, if names are whole. -/
theorem facts_eq (o : Observer) (h : Cleared s t) (db : Symbols) : o.facts s db = o.facts t db := by
  cases o with
  | globals => exact Facts.globals_eq h.toSameCode
  | assignments => exact Facts.assigned_eq_cleared h db
  | typeHints => exact Facts.hinted_eq h.toSameCode db
  | annotations => exact Facts.annotated_eq h.toSameCode db
  | inclusions => exact Facts.included_eq h.toSameCode
  | classes => exact Facts.declared_eq_cleared h

/-- Nothing is learnt from a plain comment. -/
theorem facts_of_plain (o : Observer) (h : s.token.isPlainComment = true) (db : Symbols) :
    o.facts s db = [] := by
  have hkind : s.token.kind = .comment := of_decide_eq_true h
  cases o with
  | globals => simp [facts, Facts.globals, Token.isKeyword, hkind]
  | assignments => simp [facts, Facts.assigned, hkind]
  | typeHints => simp [facts, Facts.hinted, hkind]
  | annotations => simp [facts, Facts.annotated, hkind]
  | inclusions => simp [facts, Facts.included, target?, Token.literal?, hkind]
  | classes => simp [facts, Facts.declared, Token.isKeyword, hkind]

end Observer

/-! ## Passes -/

namespace Look

variable {s t : Site} {os : List Observer}

theorem known_map_congr (h : ∀ (o : Observer) (db : Symbols), o.facts s db = o.facts t db)
    (os : List Observer) (db : Symbols) :
    known db (os.map (⟨·, s⟩)) = known db (os.map (⟨·, t⟩)) := by
  induction os generalizing db with
  | nil => rfl
  | cons o os ih =>
    have hfirst : (⟨o, s⟩ : Look).facts db = (⟨o, t⟩ : Look).facts db := h o db
    rw [List.map_cons, List.map_cons, known, known, List.foldl_cons, List.foldl_cons, hfirst]
    exact ih _

theorem known_map_of_none (h : ∀ (o : Observer) (db : Symbols), o.facts s db = [])
    (os : List Observer) (db : Symbols) : known db (os.map (⟨·, s⟩)) = db := by
  induction os generalizing db with
  | nil => rfl
  | cons o os ih =>
    have hfirst : (⟨o, s⟩ : Look).facts db = [] := h o db
    rw [List.map_cons, known, List.foldl_cons, hfirst]
    exact ih db

/-- What is known after looks at sites is known after looks at those without the plain comments. -/
theorem known_uncommented {sites : List Site}
    (h : ∀ s ∈ sites, s.token.isPlainComment = false → Cleared s s.uncommented) (db : Symbols) :
    known db (((sites.filter fun s => !s.token.isPlainComment).map Site.uncommented).flatMap atSite) =
      known db (sites.flatMap atSite) := by
  induction sites generalizing db with
  | nil => rfl
  | cons s sites ih =>
    obtain ⟨hs, hsites⟩ := List.forall_mem_cons.1 h
    rw [List.flatMap_cons, known_append]
    cases hplain : s.token.isPlainComment with
    | true =>
      have hsame : known db (atSite s) = db :=
        known_map_of_none (fun o => o.facts_of_plain hplain) Observer.all db
      rw [List.filter_cons_of_neg (by simp [hplain]), hsame, ih hsites]
    | false =>
      have hsame : known db (atSite s.uncommented) = known db (atSite s) :=
        (known_map_congr (fun o => o.facts_eq (hs hplain)) Observer.all db).symm
      rw [List.filter_cons_of_pos (by simp [hplain]), List.map_cons, List.flatMap_cons, known_append,
        hsame, ih hsites]

end Look

/-- What is known after a reading pass over files, by what was known before. -/
def Symbols.afterReading (db : Symbols) (sources : List Source) : Symbols :=
  sources.foldl (fun db source => (Findings.ofSource Session.observers db source).db) db

/-- **Plain comments do not change what is learnt**, if no name is cut off by one. -/
theorem Symbols.afterReading_uncommented {sources : List Source}
    (h : ∀ source ∈ sources, source.WholeNames) (db : Symbols) :
    db.afterReading (sources.map Source.uncommented) = db.afterReading sources := by
  induction sources generalizing db with
  | nil => rfl
  | cons source sources ih =>
    obtain ⟨hsource, hsources⟩ := List.forall_mem_cons.1 h
    have hfirst : (Findings.ofSource Session.observers db source.uncommented).db =
        (Findings.ofSource Session.observers db source).db := by
      rw [Look.known_ofSource, Look.known_ofSource, all_uncommented]
      exact Look.known_uncommented (fun s hs => cleared_uncommented hsource hs) db
    rw [List.map_cons, afterReading, afterReading, List.foldl_cons, List.foldl_cons, hfirst]
    exact ih hsources _

/-- **Comments do not change what is read off code.** In files without their plain comments, the
proposers that look for names of classes and methods and for includes propose the same edits, whatever
is known and however they are combined. And the observers learn the same from them, whatever is known
before, if no plain comment stands within a name. -/
theorem plain_comments_ignored (db : Symbols) (sources : List Source) :
    (∀ source ∈ sources, ∀ ps : List Proposer, (∀ p ∈ ps, p.readsCode = true) →
      Findings.ofSource (ps.map .proposer) db source.uncommented =
        Findings.ofSource (ps.map .proposer) db source) ∧
    ((∀ source ∈ sources, source.WholeNames) →
      db.afterReading (sources.map Source.uncommented) = db.afterReading sources) := by
  refine ⟨fun source _ ps hps => ?_, fun h => Symbols.afterReading_uncommented h db⟩
  rw [Findings.ofSource_proposers, Findings.ofSource_proposers,
    Proposer.proposals_uncommented hps]

/-- `class A /* no */ extends \N\B # no` -/
def remarked : Source :=
  ⟨⟨"/a.php"⟩, "<?php class A /* no */ extends \\N\\B # no",
    [⟨.other, "php_tag", "<?php", 0, 1, 0⟩, ⟨.keyword, "class", "class", 6, 1, 1⟩,
      ⟨.name, "name", "A", 12, 1, 1⟩, ⟨.comment, "comment", "/* no */", 14, 1, 1⟩,
      ⟨.keyword, "extends", "extends", 23, 1, 1⟩, ⟨.punct, "\\", "\\", 31, 1, 1⟩,
      ⟨.name, "name", "N", 32, 1, 1⟩, ⟨.punct, "\\", "\\", 33, 1, 1⟩, ⟨.name, "name", "B", 34, 1, 1⟩,
      ⟨.comment, "comment", "# no", 36, 1, 1⟩],
    [⟨none, none⟩, ⟨some "A", none⟩], [0]⟩

/-- A comment stands behind the name of a class, and another one behind that of its parent. -/
theorem plain_comments_ignored_heading :
    (Proposer.classes "B" "C").readsCode = true ∧ remarked.WholeNames ∧
    Findings.ofSource ([.classes "B" "C"].map .proposer) Symbols.empty remarked.uncommented =
      Findings.ofSource ([.classes "B" "C"].map .proposer) Symbols.empty remarked ∧
    Symbols.empty.afterReading [remarked.uncommented] = Symbols.empty.afterReading [remarked] ∧
    (Symbols.empty.afterReading [remarked]).parent? "A" = some "B" := by
  have hreads : ∀ p ∈ [Proposer.classes "B" "C"], p.readsCode = true := by simp [Proposer.readsCode]
  have hwhole : remarked.WholeNames := by decide +kernel
  obtain ⟨hedits, hfacts⟩ := plain_comments_ignored Symbols.empty [remarked]
  refine ⟨rfl, hwhole, hedits remarked List.mem_cons_self _ hreads, hfacts ?_, ?_⟩
  · simpa using hwhole
  · decide +kernel

end PhpRename
