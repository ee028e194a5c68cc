import PhpRename.Proofs.Php.Lowercase
import PhpRename.Proofs.Php.Token
import PhpRename.Rename.References

/-!
# Where a class is named

The code before a name is read backwards, the nearest token first: over the segments of the name
itself, and in a list over the items before it.

* `Qualifier`: what stands before the last segment of a name, up to where the name begins.
* `ClassPlace`: a name is that of a class, as the code before it says or a double colon behind it.
* `class_places`: what is done with a name at such a place, with and without arguments behind it.
-/

namespace PhpRename.Rename

open Php

/-! ## Qualified names -/

/-- What stands before the last segment of a name, read backwards from `code` up to what is
`before` the name. A relative name begins with the keyword `namespace`. -/
inductive Qualifier : Bool → List Token → List Token → Prop
  | none {before} (h : ∀ p ∈ before.head?, p.isPunct "\\" = false) : Qualifier false before before
  | root {b before} (hb : b.isPunct "\\" = true)
      (h : ∀ p ∈ before.head?, p.isPunct "\\" = false ∧ p.kind ≠ .name) :
      Qualifier false (b :: before) before
  | relative {b k before} (hb : b.isPunct "\\" = true) (hk : k.isKeyword "namespace" = true) :
      Qualifier true (b :: k :: before) before
  | segment {relative b n code before} (hb : b.isPunct "\\" = true) (hn : n.kind = .name)
      (h : Qualifier relative code before) : Qualifier relative (b :: n :: code) before

/-! ## Places -/

/-- Code in parentheses, read backwards from `code` to what is left of it. Each parenthesis in it
has its partner. -/
inductive Group : List Token → List Token → Prop
  | nil {code} : Group code code
  | token {t code before} (hc : t.isPunct ")" = false) (ho : t.isPunct "(" = false)
      (h : Group code before) : Group (t :: code) before
  | group {c o code inner before} (hc : c.isPunct ")" = true) (hi : Group code (o :: inner))
      (ho : o.isPunct "(" = true) (h : Group inner before) : Group (c :: code) before

/-- The arguments behind an item of a list, if it has some. -/
inductive Arguments : List Token → List Token → Prop
  | none {code} : Arguments code code
  | some {c o code before} (hc : c.isPunct ")" = true) (h : Group code (o :: before))
      (ho : o.isPunct "(" = true) : Arguments (c :: code) before

/-- What a list of classes stands behind that has `mark` between its items. -/
inductive OpensList : String → List Token → Prop
  | parents {k before} (hk : k.isKeyword "extends" = true ∨ k.isKeyword "implements" = true) :
      OpensList "," (k :: before)
  | attributes {a before} (ha : a.isPunct "#[" = true) : OpensList "," (a :: before)
  | caught {o k before} (ho : o.isPunct "(" = true) (hk : k.isKeyword "catch" = true) :
      OpensList "|" (o :: k :: before)

/-- The code before an item of a list of classes that has `mark` between its items. -/
inductive Listed (mark : String) : List Token → Prop
  | first {before} (h : OpensList mark before) : Listed mark before
  | next {m n args code before relative} (hm : m.isPunct mark = true)
      (ha : Arguments args (n :: code)) (hn : n.kind = .name)
      (hq : Qualifier relative code before) (h : Listed mark before) : Listed mark (m :: args)

/-- The name that is read behind `before` up to the site is that of a class. -/
inductive ClassPlace (s : Site) : List Token → Prop
  | created {k before} (hk : k.isKeyword "new" = true) : ClassPlace s (k :: before)
  | tested {k before} (hk : k.isKeyword "instanceof" = true) : ClassPlace s (k :: before)
  | listed {mark before} (h : Listed mark before) : ClassPlace s before
  /-- A qualifier of a member is no member itself. -/
  | qualifier {before} (hs : s.next?.any (·.isPunct "::") = true)
      (h : before.head?.any precedesMember = false) : ClassPlace s before

variable {t : Token} {s : Site} {code before : List Token} {relative : Bool} {mark old new : String}

/-! ## What is found before a name -/

theorem beforeQualified_eq_head? (h : ∀ p ∈ before.head?, joins p t = false) :
    beforeQualified t before = before.head? := by
  cases before with
  | nil => rfl
  | cons p before => rw [beforeQualified, h p rfl, if_neg Bool.false_ne_true, List.head?_cons]

theorem beforeQualified_backslash {b : Token} (hb : b.isPunct "\\" = true) (code : List Token) :
    beforeQualified t (b :: code) = beforeQualified b code := by
  rw [beforeQualified, joins, hb, Bool.true_or, if_pos rfl]

/-- What is found before a name, over all its segments. -/
theorem Qualifier.beforeQualified_eq (h : Qualifier relative code before) (ht : t.kind = .name) :
    if relative then ∃ k, beforeQualified t code = some k ∧ k.isKeyword "namespace" = true
    else beforeQualified t code = before.head? := by
  -- over the segments, of which each one is the last for the code before it
  induction h generalizing t with
  | none h =>
    refine beforeQualified_eq_head? fun p hp => ?_
    have hname : t.isPunct "\\" = false := by simp [Token.isPunct, ht]
    rw [joins, h p hp, hname, Bool.and_false, Bool.false_or]
  | root hb h =>
    refine (beforeQualified_backslash hb _).trans (beforeQualified_eq_head? fun p hp => ?_)
    rw [joins, (h p hp).1, decide_eq_false (h p hp).2, Bool.false_and, Bool.false_or]
  | @relative b k before hb hk =>
    -- the keyword is joined with nothing, so it is taken for what stands before the name
    have hends : joins k b = false := by
      rw [joins, Bool.eq_false_iff.2 (Token.not_isPunct_of_isKeyword hk), Token.kind_of_isKeyword hk]
      rfl
    refine ⟨k, ?_, hk⟩
    rw [beforeQualified_backslash hb, beforeQualified, hends, if_neg Bool.false_ne_true]
  | @segment relative b n code before hb hn h ih =>
    have hjoins : joins n b = true := by simp [joins, hb, hn]
    rw [beforeQualified_backslash hb, beforeQualified, if_pos hjoins]
    exact ih hn

theorem Listed.mark_eq (h : Listed mark before) : mark = "," ∨ mark = "|" := by
  induction h with
  | first h => cases h <;> simp
  | next hm ha hn hq h ih => exact ih

/-- Of the keywords, three say that the name of a member follows. -/
theorem precedesMember_of_isKeyword {w : String} (h : t.isKeyword w = true)
    (hw : lowercase w ∉ ["function", "const", "fn"].map lowercase) : precedesMember t = false := by
  have hmark (m : String) : t.isPunct m = false :=
    Bool.eq_false_iff.2 (Token.not_isPunct_of_isKeyword h)
  have hother {v : String} (hv : v ∈ ["function", "const", "fn"]) : t.isKeyword v = false := by
    rw [Token.isKeyword, Bool.and_eq_true, decide_eq_true_eq, decide_eq_true_eq] at h
    rw [Token.isKeyword, h.2, Bool.and_eq_false_iff]
    exact .inr (decide_eq_false fun he => hw (he ▸ List.mem_map_of_mem hv))
  rw [precedesMember, Token.isMemberAccess, hmark, hmark, hmark, hother (by simp),
    hother (by simp), hother (by simp)]
  rfl

/-- Of the marks, the arrows and the double colon say it. -/
theorem precedesMember_of_isPunct {m : String} (h : t.isPunct m = true)
    (hm : m ∉ ["->", "?->", "::"]) : precedesMember t = false := by
  obtain ⟨hkind, rfl⟩ := Token.isPunct_iff.1 h
  have hother {v : String} (hv : v ∈ ["->", "?->", "::"]) : t.isPunct v = false := by
    rw [Bool.eq_false_iff, ne_eq, Token.isPunct_iff]
    exact fun he => hm (he.2 ▸ hv)
  have hword (w : String) : t.isKeyword w = false := by
    rw [Bool.eq_false_iff]
    exact fun hk => Token.not_isPunct_of_isKeyword hk h
  rw [precedesMember, Token.isMemberAccess, hother (by simp), hother (by simp), hother (by simp),
    hword, hword, hword]
  rfl

/-- Nothing that a class is named behind says that the name of a member follows. -/
theorem ClassPlace.not_precedesMember (h : ClassPlace s before) :
    before.head?.any precedesMember = false := by
  cases h with
  | created hk => exact precedesMember_of_isKeyword hk (mt mem_map_lowercase_iff.1 (by decide))
  | tested hk => exact precedesMember_of_isKeyword hk (mt mem_map_lowercase_iff.1 (by decide))
  | listed h =>
    cases h with
    | first h =>
      cases h with
      | parents hk =>
        rcases hk with hk | hk
        · exact precedesMember_of_isKeyword hk (mt mem_map_lowercase_iff.1 (by decide))
        · exact precedesMember_of_isKeyword hk (mt mem_map_lowercase_iff.1 (by decide))
      | attributes ha => exact precedesMember_of_isPunct ha (by decide)
      | caught ho hk => exact precedesMember_of_isPunct ho (by decide)
    | next hm ha hn hq h =>
      -- whatever the item before is, its list's mark follows it
      rcases h.mark_eq with rfl | rfl
      · exact precedesMember_of_isPunct hm (by decide)
      · exact precedesMember_of_isPunct hm (by decide)
  | qualifier hs h => exact h

/-! ## Edits -/

/-- **What is done with a name** is told by the code before its first segment, and by a call. -/
theorem classEdits_of_qualifier (hkind : s.token.kind = .name)
    (h : Qualifier relative (Site.code s.before) before) :
    classEdits s.token.text new s =
      if !relative && before.head?.any precedesMember ||
          s.isCalled && !(!relative && before.head?.any (·.isKeyword "new")) then []
      else [replaceToken s new .certain] := by
  have hfront := h.beforeQualified_eq hkind
  have hmember : (beforeQualified s.token (Site.code s.before)).any precedesMember =
      (!relative && before.head?.any precedesMember) := by
    cases relative with
    | false => rw [hfront, Bool.not_false, Bool.true_and]
    | true =>
      obtain ⟨k, hk, hword⟩ := hfront
      rw [hk]
      exact precedesMember_of_isKeyword hword (mt mem_map_lowercase_iff.1 (by decide))
  have hnew : (beforeQualified s.token (Site.code s.before)).any (·.isKeyword "new") =
      (!relative && before.head?.any (·.isKeyword "new")) := by
    cases relative with
    | false => rw [hfront, Bool.not_false, Bool.true_and]
    | true =>
      obtain ⟨k, hk, hword⟩ := hfront
      rw [Token.isKeyword, Bool.and_eq_true, decide_eq_true_eq, decide_eq_true_eq] at hword
      have hother : lowercase "namespace" ≠ lowercase "new" :=
        mt lowercase_eq_lowercase_iff.1 (by decide)
      rw [hk, Option.any_some, Token.isKeyword, hword.2, decide_eq_false hother, Bool.and_false]
      rfl
  rw [classEdits, if_neg (by simp [hkind])]
  dsimp only
  rw [hmember, hnew]
  cases !relative && before.head?.any precedesMember <;> rfl

/-- **Where a class is named, it is renamed once, for certain**, however it is qualified. Where
parentheses follow, that holds only right behind `new`. So an attribute with arguments is left out,
and so is a new object of a class with a relative name. -/
theorem class_places (hkind : s.token.kind = .name) (hold : s.token.text = old)
    (h : Qualifier relative (Site.code s.before) before) (hplace : ClassPlace s before) :
    classEdits old new s =
      if s.isCalled && !(!relative && before.head?.any (·.isKeyword "new")) then []
      else [replaceToken s new .certain] := by
  rw [← hold, classEdits_of_qualifier hkind h, hplace.not_precedesMember, Bool.and_false,
    Bool.false_or]

/-- A new object of a class whose name is qualified, with a comment in it. -/
theorem class_places_created :
    let source := Source.read ⟨"/a.php"⟩ "<?php\nnew \\A\\ /* b */ Old(1);\n"
    ∃ s ∈ Site.all source, ∃ before, s.token.kind = .name ∧ s.token.text = "Old" ∧
      Qualifier false (Site.code s.before) before ∧ ClassPlace s before ∧ s.isCalled = true ∧
      classEdits "Old" "Neu" s = [replaceToken s "Neu" .certain] := by
  intro source
  have hany : ((Site.all source).any fun s => s.token.kind = .name && s.token.text = "Old" &&
      s.isCalled && Site.code s.before = [⟨.punct, "\\", "\\", 12, 2, 0⟩,
        ⟨.name, "name", "A", 11, 2, 0⟩, ⟨.punct, "\\", "\\", 10, 2, 0⟩,
        ⟨.keyword, "new", "new", 6, 2, 0⟩, ⟨.other, "php_tag", "<?php", 0, 1, 0⟩]) = true := by
    decide +kernel
  obtain ⟨s, hs, hq⟩ := List.any_eq_true.1 hany
  simp only [Bool.and_eq_true, decide_eq_true_eq] at hq
  obtain ⟨⟨⟨hkind, hold⟩, hcalled⟩, hcode⟩ := hq
  have hqualifier : Qualifier false (Site.code s.before)
      [⟨.keyword, "new", "new", 6, 2, 0⟩, ⟨.other, "php_tag", "<?php", 0, 1, 0⟩] := by
    rw [hcode]
    exact .segment rfl rfl (.root rfl (by decide))
  have hplace : ClassPlace s
      [⟨.keyword, "new", "new", 6, 2, 0⟩, ⟨.other, "php_tag", "<?php", 0, 1, 0⟩] :=
    .created (by decide +kernel)
  have hnew : Token.isKeyword ⟨.keyword, "new", "new", 6, 2, 0⟩ "new" = true := by decide +kernel
  refine ⟨s, hs, _, hkind, hold, hqualifier, hplace, hcalled, ?_⟩
  rw [class_places hkind hold hqualifier hplace, hcalled, List.head?_cons, Option.any_some, hnew]
  rfl

/-- **An attribute with arguments keeps the old name** of its class. -/
theorem attribute_left_out :
    let source := Source.read ⟨"/p/t.php"⟩ "<?php\n#[Old(1)]\nclass C \x7b\x7d\n"
    ¬ ∀ s ∈ Site.all source, ∀ relative before, s.token.kind = .name → s.token.text = "Old" →
      Qualifier relative (Site.code s.before) before → ClassPlace s before →
        classEdits "Old" "Neu" s = [replaceToken s "Neu" .certain] := by
  intro source hall
  have hany : ((Site.all source).any fun s => s.token.kind = .name && s.token.text = "Old" &&
      (classEdits "Old" "Neu" s).isEmpty && Site.code s.before = [⟨.punct, "#[", "#[", 6, 2, 1⟩,
        ⟨.other, "php_tag", "<?php", 0, 1, 0⟩]) = true := by
    decide +kernel
  obtain ⟨s, hs, hq⟩ := List.any_eq_true.1 hany
  simp only [Bool.and_eq_true, decide_eq_true_eq] at hq
  obtain ⟨⟨⟨hkind, hold⟩, hnone⟩, hcode⟩ := hq
  have hqualifier : Qualifier false (Site.code s.before) (Site.code s.before) :=
    .none (by rw [hcode]; decide)
  have hlisted : Listed "," (Site.code s.before) := .first (by rw [hcode]; exact .attributes rfl)
  rw [hall s hs false _ hkind hold hqualifier (.listed hlisted)] at hnone
  cases hnone

end PhpRename.Rename
