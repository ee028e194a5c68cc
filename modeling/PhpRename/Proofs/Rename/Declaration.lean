import PhpRename.Proofs.Php.Declared
import PhpRename.Proofs.Rename.Certain

/-!
# Names that are declared

A method is renamed where it is declared, and that is told by the class around it alone. So a
function that a method of the class declares is taken for a method, too, and so is a method of a
class without a name that is made in there.

A class is not renamed where a function is declared, or a constant right behind its keyword. But the
constants after the first are told by the comma before them, and those with a type by the type, and
neither says that they are no class.

* `isMethodOf`, `isStrayIn`: what a name stands for that is declared behind `function`.
* `method_declarations`: which of these names are renamed with the method of a class.
* `class_declarations`: which declared names are renamed with a class.
-/

namespace PhpRename.Rename

open Php

variable {db : Symbols} {s front : Site} {f : Framed} {fs' : List Framed} {cls old new : String}
variable {path : Path} {content : String}

/-- The name at the site stands behind the keyword of a function, or behind that and the mark for a
reference. -/
def isNamedByFunction (s : Site) : Bool :=
  s.token.kind = .name &&
    s.prevCode?.any fun front => (declarer front).token.isKeyword "function"

/-- The name is that of a method of the class itself. -/
def isMethodOf (cls : String) (f : Framed) : Bool :=
  match f.goal, f.frames with
  | .anyWord .name, .method :: .cls name :: _ => name = cls
  | _, _ => false

/-- The name stands inside the class, but is that of a function in one of its methods, or of a method
of a class without a name. Or it is imported, which no file may do inside a class. -/
def isStrayIn (cls : String) (f : Framed) : Bool :=
  match f.goal, f.frames with
  | .anyWord .name, .function :: outer => Frame.cls? outer = some cls
  | .anyWord .name, .method :: .anonymous :: outer => Frame.cls? outer = some cls
  | .importPath, frames => Frame.cls? frames = some cls
  | _, _ => false

/-- What the name of a function stands for is told by the class that its frames tell. -/
theorem cls?_eq_some_iff (h : f.goal = .importPath ∨ Framed.NamesFunction f fs') :
    Frame.cls? f.frames = some cls ↔ (isMethodOf cls f || isStrayIn cls f) = true := by
  obtain ⟨g, frames⟩ := f
  rcases h with himport | ⟨hgoal, hnamed, hproper, -⟩
  · obtain rfl : g = .importPath := himport
    simp [isMethodOf, isStrayIn]
  · obtain rfl : g = .anyWord .name := hgoal
    cases hnamed with
    | function outer => simp [isMethodOf, isStrayIn, Frame.cls?]
    | method outer =>
      match outer, hproper with
      | .cls name :: outer, _ => simp [isMethodOf, isStrayIn, Frame.cls?]
      | .anonymous :: outer, _ => simp [isMethodOf, isStrayIn, Frame.cls?]

/-- Behind the keyword of a function, the class around decides. -/
theorem methodConfidence_of_function (hfn : (declarer front).token.isKeyword "function" = true) :
    methodConfidence db cls s front = if s.cls? = some cls then some .certain else none :=
  if_pos hfn

/-- A name behind the keyword of a function is read as one. -/
theorem exists_function (hp : parses content.toList = true)
    (hs : s ∈ Site.all (Source.read path content)) (h : isNamedByFunction s = true) :
    ∃ front g l ls f fs', s.prevCode? = some front ∧
      (declarer front).token.isKeyword "function" = true ∧
      Stage.Hears s content.toList g l ls f fs' ∧ l.kind = .word ∧
      (front.token.isPunct "&" = false ∧ f.goal = .importPath ∨ Framed.NamesFunction f fs') := by
  rw [isNamedByFunction, Bool.and_eq_true, decide_eq_true_eq] at h
  obtain ⟨hname, hany⟩ := h
  obtain ⟨front, hfront, hfn⟩ := (Option.any_eq_true _ _).1 hany
  rcases Stage.exists_hears hp hs with ⟨g, l, ls, f, fs', h⟩ | ⟨-, hno⟩
  swap
  · simp [Token.isComment, hname] at hno
  have hl : l.kind = .word := Reader.word_of_name (h.token ▸ hname)
  have hcode : Site.code g.before = front.token :: Site.code front.before :=
    h.before ▸ Site.code_before hfront
  refine ⟨front, g, l, ls, f, fs', hfront, hfn, h, hl, ?_⟩
  cases hamp : front.token.isPunct "&" with
  | false =>
    rw [declarer, if_neg (by simp [hamp])] at hfn
    rcases h.heard.names_function hp hl hcode hfn with himport | hnames
    · exact .inl ⟨rfl, himport⟩
    · exact .inr hnames
  | true =>
    rw [declarer, if_pos hamp] at hfn
    cases hprev : front.prevCode? with
    | none =>
      rw [hprev, Option.getD_none] at hfn
      exact absurd hamp (Token.not_isPunct_of_isKeyword hfn)
    | some fn =>
      rw [hprev, Option.getD_some] at hfn
      rw [Site.code_before hprev] at hcode
      exact .inr (h.heard.names_reference hp hl hcode hamp hfn)

/-! ## Methods -/

/-- **A method is renamed where it is declared**, and so is what stands behind the keyword of a
function elsewhere in its class. Nothing else behind that keyword is. -/
theorem method_declarations (hp : parses content.toList = true)
    (hs : s ∈ Site.all (Source.read path content)) (hfn : isNamedByFunction s = true)
    (db : Symbols) (cls old new : String) :
    ∃ f, s.place? = some f ∧ methodEdits cls old new db s =
      if s.token.text = old && (isMethodOf cls f || isStrayIn cls f) then
        [replaceToken s new .certain]
      else [] := by
  obtain ⟨front, g, l, ls, f, fs', hfront, hdeclarer, h, -, hcase⟩ := exists_function hp hs hfn
  refine ⟨f, h.place, ?_⟩
  have hname : s.token.kind = .name := by simpa using (Bool.and_eq_true_iff.1 hfn).1
  have hcls : s.cls? = some cls ↔ (isMethodOf cls f || isStrayIn cls f) = true := by
    rw [h.cls]
    exact cls?_eq_some_iff (hcase.imp And.right id)
  rw [methodEdits, hfront, Option.bind_some, methodConfidence_of_function hdeclarer]
  by_cases htext : s.token.text = old
  · by_cases hc : s.cls? = some cls
    · simp [hname, htext, hc, hcls.1 hc]
    · simp [hname, htext, hc, Bool.eq_false_iff.2 (mt hcls.2 hc)]
  · simp [htext]

/-- A method that returns a reference, in its class. -/
theorem method_declarations_reference :
    let content := "<?php\nclass C \x7b static function &old() \x7b\x7d \x7d\n"
    parses content.toList = true ∧
      ∃ s ∈ Site.all (Source.read ⟨"/c.php"⟩ content), isNamedByFunction s = true ∧
        ∃ f, s.place? = some f ∧ isMethodOf "C" f = true ∧
          methodEdits "C" "old" "neu" Symbols.empty s = [replaceToken s "neu" .certain] := by
  intro content
  have hp : parses content.toList = true := by decide +kernel
  have hsite : ((Site.all (Source.read ⟨"/c.php"⟩ content)).any fun s =>
      isNamedByFunction s && s.token.text = "old" && s.place?.any (isMethodOf "C")) = true := by
    decide +kernel
  obtain ⟨s, hs, hq⟩ := List.any_eq_true.1 hsite
  obtain ⟨⟨hfn, htext⟩, hmethod⟩ := by simpa only [Bool.and_eq_true, decide_eq_true_eq] using hq
  obtain ⟨f, hplace, hedits⟩ := method_declarations hp hs hfn Symbols.empty "C" "old" "neu"
  rw [hplace, Option.any_some] at hmethod
  exact ⟨hp, s, hs, hfn, f, hplace, hmethod, by simpa [htext, hmethod] using hedits⟩

/-- A function that a method declares is renamed with a method of the class, and so is a method of a
class without a name. -/
theorem function_taken_for_method :
    let content := "<?php\nclass C \x7b function m() \x7b function old() \x7b\x7d return new class \x7b" ++
      " function old() \x7b\x7d \x7d; \x7d \x7d\n"
    parses content.toList = true ∧
      ¬ ∀ s ∈ Site.all (Source.read ⟨"/p/t.php"⟩ content), isNamedByFunction s = true →
        s.token.text = "old" → ∀ f, s.place? = some f →
          (methodEdits "C" "old" "neu" Symbols.empty s ≠ [] ↔ isMethodOf "C" f = true) := by
  intro content
  refine ⟨by decide +kernel, fun hall => ?_⟩
  have hsite : ((Site.all (Source.read ⟨"/p/t.php"⟩ content)).any fun s =>
      isNamedByFunction s && s.token.text = "old" && s.place?.any (!isMethodOf "C" ·) &&
        !(methodEdits "C" "old" "neu" Symbols.empty s).isEmpty) = true := by
    decide +kernel
  obtain ⟨s, hs, hq⟩ := List.any_eq_true.1 hsite
  obtain ⟨⟨⟨hfn, htext⟩, hstray⟩, hedits⟩ := by
    simpa only [Bool.and_eq_true, decide_eq_true_eq] using hq
  obtain ⟨f, hplace, hno⟩ := (Option.any_eq_true _ _).1 hstray
  have hmethod := (hall s hs hfn htext f hplace).1 fun hnone => by simp [hnone] at hedits
  rw [hmethod] at hno
  cases hno

/-! ## Classes -/

/-- Where a mark must come next, it is the next token of the site, or there is a tag. -/
theorem next?_of_mark {g : Stage} {l : Lexeme} {ls : List Lexeme} {m : String}
    {frames : List Frame} {fs : List Framed} (hp : parses content.toList = true)
    (h : Stage.Hears s content.toList g l ls f fs') (hmark : fs' = ⟨.mark m, frames⟩ :: fs) :
    ∃ t, s.next? = some t ∧ (t.isPunct m = true ∨ t.kind = .other ∧ inCode ls = false) := by
  rw [Site.next?_eq, h.after]
  exact h.heard.next.next_mark hp rfl hmark

/-- A function is not named where a class is. -/
theorem classEdits_of_function (hp : parses content.toList = true)
    (hs : s ∈ Site.all (Source.read path content)) (hfn : isNamedByFunction s = true)
    (old new : String) : classEdits old new s = [] := by
  obtain ⟨front, g, l, ls, f, fs', hfront, hdeclarer, h, hl, hcase⟩ := exists_function hp hs hfn
  refine List.eq_nil_iff_forall_not_mem.2 fun e he => ?_
  obtain ⟨hname, -, hmember, hnew, -⟩ := mem_classEdits.1 he
  rw [Site.code_before hfront] at hmember hnew
  cases hamp : front.token.isPunct "&" with
  | false =>
    rw [declarer, if_neg (by simp [hamp])] at hdeclarer
    have hback : front.token.isPunct "\\" = false :=
      Bool.eq_false_iff.2 (Token.not_isPunct_of_isKeyword hdeclarer)
    rw [beforeQualified_eq hname hback, Option.any_some] at hmember
    exact hmember (by simp [precedesMember, hdeclarer])
  | true =>
    -- what a reference is returned by has parameters, and nothing is made anew behind the mark
    obtain ⟨hkind, htext⟩ := Token.isPunct_iff.1 hamp
    have hback : front.token.isPunct "\\" = false := by simp [Token.isPunct, htext]
    have hnames := hcase.resolve_left fun hno => by simp [hamp] at hno
    obtain ⟨fs, hparameters⟩ := hnames.parameters
    obtain ⟨t, ht, hparen⟩ := next?_of_mark hp h hparameters
    have hsuffix : l :: ls <:+ lexemes content.toList := h.heard.rest ▸ h.heard.here.belongs.rest
    have hcode := inCode_of_word hsuffix hl
    have hcalled : s.isCalled = true := by
      rw [Site.isCalled, ht, Option.any_some]
      exact hparen.resolve_right fun hno => by simp [hcode] at hno
    have hany := hnew hcalled
    rw [beforeQualified_eq hname hback, Option.any_some] at hany
    simp [Token.isKeyword, hkind] at hany

/-- Of what may stand before the name of a constant, its keyword alone says that no class is
named. -/
theorem precedes_constant {t p : Token} (ht : t.kind = .name)
    (hp : p.isKeyword "const" = true ∨ (p.kind = .punct → p.text = "," ∨ p.text = ")") ∧
      (p.kind = .keyword → p.node ∈ "namespace" :: Goal.typeWords)) (before : List Token) :
    (beforeQualified t (p :: before)).any precedesMember = p.isKeyword "const" := by
  rcases hp with hconst | ⟨hmark, hword⟩
  · have hback : p.isPunct "\\" = false :=
      Bool.eq_false_iff.2 (Token.not_isPunct_of_isKeyword hconst)
    rw [beforeQualified_eq ht hback, Option.any_some, hconst]
    simp [precedesMember, hconst]
  · have hnot {m : String} (hm : m ≠ "," ∧ m ≠ ")") : p.isPunct m = false := by
      rw [Bool.eq_false_iff, ne_eq, Token.isPunct_iff]
      rintro ⟨hkind, rfl⟩
      rcases hmark hkind with he | he
      · exact hm.1 he
      · exact hm.2 he
    have hno {w : String} (hw : lowercase w ∉ ("namespace" :: Goal.typeWords).map lowercase) :
        p.isKeyword w = false := by
      rw [Bool.eq_false_iff]
      intro hk
      simp only [Token.isKeyword, Bool.and_eq_true, decide_eq_true_eq] at hk
      exact hw (hk.2 ▸ List.mem_map_of_mem (hword hk.1))
    rw [beforeQualified_eq ht (hnot (by decide)), Option.any_some, precedesMember,
      Token.isMemberAccess, hnot (by decide), hnot (by decide), hnot (by decide),
      hno (mt mem_map_lowercase_iff.1 (by decide)), hno (mt mem_map_lowercase_iff.1 (by decide)),
      hno (mt mem_map_lowercase_iff.1 (by decide))]
    rfl

/-- The name of a constant is told from that of a class by its keyword only. -/
theorem classEdits_of_constant (hp : parses content.toList = true)
    (hs : s ∈ Site.all (Source.read path content)) (hplace : s.place? = some f)
    (hf : f.goal = .constant) (old new : String) : classEdits old new s =
      if s.token.text = old && !(s.prev?.any (·.isKeyword "const")) then
        [replaceToken s new .certain]
      else [] := by
  obtain ⟨g, l, ls, fs', h⟩ := Stage.exists_hears_of_place hp hs hplace
  obtain ⟨hkind, hrole, below, hvalue⟩ :=
    h.heard.framed.meets.taken_constant (h.heard.here.orderly hp) hf
  have hname : s.token.kind = .name := by
    rw [h.token, Stage.tokenOf, hrole]
    simp [Reader.token, Reader.classify, hkind]
  have hcalled : s.isCalled = false := by
    obtain ⟨t, ht, hvalue⟩ := next?_of_mark hp h hvalue
    rw [Site.isCalled, ht, Option.any_some]
    rcases hvalue with hequals | ⟨hother, -⟩
    · simp [Token.isPunct, (Token.isPunct_iff.1 hequals).2]
    · simp [Token.isPunct, hother]
  have hprecedes : (beforeQualified s.token (Site.code s.before)).any precedesMember =
      s.prev?.any (·.isKeyword "const") := by
    cases hfront : s.prevCode? with
    | none => rw [Site.prev?, hfront, Site.code_eq_nil hfront]; rfl
    | some front =>
      have hcode := Site.code_before hfront
      rw [Site.prev?, hfront, hcode]
      exact precedes_constant hname (h.heard.names_constant hp hf (h.before ▸ hcode)) _
  unfold classEdits
  simp only [hprecedes, hcalled, hname]
  by_cases htext : s.token.text = old <;>
    cases s.prev?.any (·.isKeyword "const") <;> simp [htext]

/-- **Where a class is renamed, declared functions are left alone**, and so are constants right
behind their keyword. A constant that is declared behind a comma or a type is not. -/
theorem class_declarations (hp : parses content.toList = true)
    (hs : s ∈ Site.all (Source.read path content)) (old new : String) :
    (isNamedByFunction s = true → classEdits old new s = []) ∧
      ∀ f, s.place? = some f → f.goal = .constant → classEdits old new s =
        if s.token.text = old && !(s.prev?.any (·.isKeyword "const")) then
          [replaceToken s new .certain]
        else [] :=
  ⟨fun hfn => classEdits_of_function hp hs hfn old new,
    fun _ hplace hf => classEdits_of_constant hp hs hplace hf old new⟩

/-- A function and constants that have the name of a class. -/
theorem class_declarations_shared :
    let content := "<?php\nconst A = 1, B = 2;\nfunction &B() \x7b\x7d\n"
    let source := Source.read ⟨"/c.php"⟩ content
    parses content.toList = true ∧
      (∃ s ∈ Site.all source, isNamedByFunction s = true ∧ classEdits "B" "C" s = []) ∧
      ∃ s ∈ Site.all source, ∃ f, s.place? = some f ∧ f.goal = .constant ∧
        classEdits "B" "C" s = [replaceToken s "C" .certain] := by
  intro content source
  have hp : parses content.toList = true := by decide +kernel
  have hfunction : ((Site.all source).any fun s =>
      isNamedByFunction s && s.token.text = "B") = true := by decide +kernel
  have hconstant : ((Site.all source).any fun s => s.token.text = "B" &&
      s.place?.any (·.goal = .constant) && !s.prev?.any (·.isKeyword "const")) = true := by
    decide +kernel
  obtain ⟨s, hs, hq⟩ := List.any_eq_true.1 hfunction
  obtain ⟨t, ht, hr⟩ := List.any_eq_true.1 hconstant
  obtain ⟨⟨htext, hany⟩, hprev⟩ := by simpa only [Bool.and_eq_true, decide_eq_true_eq] using hr
  obtain ⟨f, hplace, hgoal⟩ := (Option.any_eq_true _ _).1 hany
  rw [decide_eq_true_eq] at hgoal
  have hedits := (class_declarations hp ht "B" "C").2 f hplace hgoal
  exact ⟨hp, ⟨s, hs, (Bool.and_eq_true_iff.1 hq).1,
    (class_declarations hp hs "B" "C").1 (Bool.and_eq_true_iff.1 hq).1⟩,
    t, ht, f, hplace, hgoal, hedits.trans (by simp [htext, hprev])⟩

/-- A constant is renamed with a class of its name, as the second one of a list and behind a type. -/
theorem constant_taken_for_class :
    let content := "<?php\nconst A = 1, B = 2;\nclass D \x7b const int B = 3; const B = 1; \x7d\n"
    parses content.toList = true ∧
      ¬ ∀ s ∈ Site.all (Source.read ⟨"/p/t.php"⟩ content), ∀ f, s.place? = some f →
        f.goal = .constant → classEdits "B" "C" s = [] := by
  intro content
  refine ⟨by decide +kernel, fun hall => ?_⟩
  have hsite : ((Site.all (Source.read ⟨"/p/t.php"⟩ content)).any fun s =>
      !(classEdits "B" "C" s).isEmpty && s.place?.any (·.goal = .constant)) = true := by
    decide +kernel
  obtain ⟨s, hs, hq⟩ := List.any_eq_true.1 hsite
  obtain ⟨hedits, hany⟩ := Bool.and_eq_true_iff.1 hq
  obtain ⟨f, hplace, hgoal⟩ := (Option.any_eq_true _ _).1 hany
  rw [decide_eq_true_eq] at hgoal
  rw [hall s hs f hplace hgoal] at hedits
  cases hedits

end PhpRename.Rename
