import Mathlib.Data.List.TakeWhile
import PhpRename.Php.ClassName
import PhpRename.Proofs.Php.Identifier
import PhpRename.Proofs.Php.Site

/-!
# Names of classes in a file

What is read as the name of a class is the text of one token, and an identifier. The class that it
means is that name itself, or the class around the site, or the one above that.

* `lastSegment_eq_self`: identifiers have one segment.
* `Site.isIdentifier_of_className?`: the names of classes that are written in a file are identifiers.
* `Site.resolve?_eq_some`: the classes that a name may mean.
-/

namespace PhpRename.Php

variable {name cls last : String}

/-! ## Segments -/

theorem toList_lastSegment (name : String) : (lastSegment name).toList =
    (name.toList.reverse.takeWhile (· ≠ '\\')).reverse :=
  String.toList_ofList

theorem ne_backslash_of_mem_lastSegment {c : Char} (h : c ∈ (lastSegment name).toList) :
    c ≠ '\\' := by
  rw [toList_lastSegment, List.mem_reverse] at h
  simpa using List.mem_takeWhile_imp h

/-- The last segment stands behind a backslash, or is all of the name. -/
theorem exists_append_lastSegment (name : String) :
    ∃ front, name.toList = front ++ (lastSegment name).toList ∧
      (front = [] ∨ front.getLast? = some '\\') := by
  refine ⟨(name.toList.reverse.dropWhile (· ≠ '\\')).reverse, ?_, ?_⟩
  · rw [toList_lastSegment, ← List.reverse_append, List.takeWhile_append_dropWhile,
      List.reverse_reverse]
  · rw [List.getLast?_reverse]
    cases hdrop : name.toList.reverse.dropWhile (· ≠ '\\') with
    | nil => exact .inl rfl
    | cons c rest =>
      have hstop := List.head?_dropWhile_not (· ≠ '\\') name.toList.reverse
      rw [hdrop] at hstop
      exact .inr (by simpa using hstop)

theorem lastSegment_eq_self (h : ∀ c ∈ name.toList, c ≠ '\\') : lastSegment name = name := by
  have hall : name.toList.reverse.takeWhile (· ≠ '\\') = name.toList.reverse := by
    rw [List.takeWhile_eq_self_iff]
    exact fun c hc => by simpa using h c (List.mem_reverse.1 hc)
  rw [lastSegment, hall, List.reverse_reverse, String.ofList_toList]

theorem lastSegment_of_isIdentifier (h : isIdentifier name = true) : lastSegment name = name := by
  refine lastSegment_eq_self ?_
  rintro c hc rfl
  exact absurd ((isIdentifier_iff.1 h).2 _ hc) (by decide)

/-! ## Words that stand for classes -/

/-- A name is an identifier in small letters, too. -/
theorem isIdentifier_of_lowercase (h : isIdentifier (lowercase name) = true) :
    isIdentifier name = true := by
  obtain ⟨hne, hchars⟩ := isIdentifier_iff.1 h
  refine isIdentifier_iff.2 ⟨?_, fun c hc => ?_⟩
  · rintro rfl
    exact hne (String.toList_injective (by simp [lowercase]))
  · have hlower : isNameChar (lowerAscii c) = true := by
      refine hchars (lowerAscii c) ?_
      rw [lowercase, String.toList_map]
      exact List.mem_map_of_mem hc
    by_cases hupper : 'A' ≤ c ∧ c ≤ 'Z'
    · have hcode : 65 ≤ c.val ∧ c.val ≤ 90 := hupper
      simp [isNameChar_eq, hcode.1, hcode.2]
    · rwa [lowerAscii, if_neg hupper] at hlower

theorem isIdentifier_of_isRelative (h : isRelative name = true) : isIdentifier name = true := by
  refine isIdentifier_of_lowercase ?_
  simp only [isRelative, List.contains_eq_mem, List.mem_cons, List.not_mem_nil, or_false,
    decide_eq_true_eq] at h
  rcases h with h | h | h <;> rw [h] <;> decide

/-! ## Names that are written -/

/-- The name that is read is the text of a token. -/
theorem exists_of_nameRun {name : Option String} {tokens : List Token}
    (h : (nameRun name tokens).1 = some last) :
    name = some last ∨ ∃ t ∈ tokens, t.text = last ∧ (t.kind = .name ∨ t.isRelativeClass = true) := by
  induction tokens generalizing name with
  | nil => exact .inl h
  | cons t rest ih =>
    rw [nameRun] at h
    split at h
    · rename_i hname
      rcases ih h with he | ⟨u, hu, htext⟩
      · exact .inr ⟨t, List.mem_cons_self, Option.some.inj he, .inl hname⟩
      · exact .inr ⟨u, List.mem_cons_of_mem t hu, htext⟩
    split at h
    · rename_i hrelative
      rw [Bool.and_eq_true] at hrelative
      exact .inr ⟨t, List.mem_cons_self, Option.some.inj h, .inr hrelative.1⟩
    split at h
    · rcases ih h with he | ⟨u, hu, htext⟩
      · exact .inl he
      · exact .inr ⟨u, List.mem_cons_of_mem t hu, htext⟩
    · exact .inl h

namespace Site

variable {s last' : Site} {db : Symbols} {path : Path} {content : String}

theorem isIdentifier_of_className? (hs : s ∈ all (Source.read path content))
    (h : s.className? = some (name, last')) : isIdentifier name = true := by
  rw [className?] at h
  split at h
  · rename_i n hrun
    cases h
    have hrun : (nameRun none (s.token :: s.after)).1 = some name := by rw [hrun]
    rcases exists_of_nameRun hrun with he | ⟨t, ht, rfl, hkind⟩
    · cases he
    rcases hkind with hname | hrelative
    · have hmem : t ∈ (Source.read path content).tokens := by
        rw [tokens_eq hs]
        exact List.mem_append_right _ ht
      exact Source.isIdentifier_of_name hmem hname
    · rw [Token.isRelativeClass, Bool.and_eq_true] at hrelative
      exact isIdentifier_of_isRelative hrelative.2
  · cases h

/-- A name ends at a site of the file. -/
theorem last_mem_all {source : Source} (hs : s ∈ all source)
    (h : s.className? = some (name, last')) : last' ∈ all source := by
  rw [className?] at h
  split at h
  · cases h
    exact advance_mem_all _ hs
  · cases h

/-- **The classes that a name may mean.** -/
theorem resolve?_eq_some (h : s.resolve? db name = some cls) :
    (cls = lastSegment name ∧ cls ≠ "" ∧ isPrimitive cls = false) ∨
      s.cls? = some cls ∨ ∃ c, s.cls? = some c ∧ db.parent? c = some cls := by
  unfold resolve? at h
  dsimp only at h
  split at h
  · cases h
  rename_i hlast
  rw [Bool.or_eq_true, not_or, decide_eq_true_eq, Bool.not_eq_true] at hlast
  split at h
  · exact .inr (.inl h)
  · exact .inr (.inl h)
  · exact .inr (.inr (Option.bind_eq_some_iff.1 h))
  · cases h
    exact .inl ⟨rfl, hlast⟩

/-- The class around a site is that of one of the scopes. -/
theorem exists_scope_of_cls? {source : Source} (hs : s ∈ all source) (h : s.cls? = some cls) :
    ∃ sc ∈ source.scopes, sc.cls = some cls := by
  rw [cls?, scope, source_of_mem_all hs, Source.scopeOf] at h
  cases hsc : source.scopes[s.token.scope]? with
  | none =>
    rw [hsc] at h
    cases h
  | some sc =>
    rw [hsc] at h
    exact ⟨sc, List.mem_of_getElem? hsc, h⟩

end Site

end PhpRename.Php
