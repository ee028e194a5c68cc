import PhpRename.Facts.Variables
import PhpRename.Proofs.Php.ClassName
import PhpRename.Proofs.Text.Occurrence

/-!
# Classes in the types of annotations

An annotation goes on to the next blank, whatever it is made of, and the class that is taken from
its type is the end of one of its alternatives. So it may be anything that has no namespace in
front, no arguments, and no brackets of an array behind.

* `Doc.isBare`: what may be left of an alternative.
* `Doc.Alternative`: a name is the end of an alternative.
* `Facts.alternative_of_firstClass?`: the class that is taken from a type.
-/

namespace PhpRename

open Php Text

/-- The text holds no blanks and no sign that ends a type, an alternative or the name of a
namespace; no arguments, and no brackets of an array at its end. -/
def Doc.isBare (name : String) : Bool :=
  name ≠ "" &&
    name.toList.all (fun c => !Unicode.isSpace c && !(['$', '*', '|', '\\', '<'].contains c)) &&
    !Text.endsWith name.toList.reverse ['[', ']']

/-- The name is what is left of an alternative of the type without the marks in front of it and
without its namespace. -/
def Doc.Alternative (type name : String) : Prop :=
  ∃ part ∈ Facts.typeParts type.toList, ∃ marks space, part = marks ++ (space ++ name.toList) ∧
    (∀ c ∈ marks, c = '?' ∨ c = '(') ∧ (space = [] ∨ space.getLast? = some '\\')

namespace Doc

variable {a : TypedVar} {cs : List Char} {name : String}

theorem lastSegment_of_isBare (h : isBare name = true) : lastSegment name = name := by
  refine lastSegment_eq_self ?_
  rintro c hc rfl
  simp only [isBare, Bool.and_eq_true, List.all_eq_true] at h
  exact absurd (h.1.2 _ hc) (by decide +kernel)

/-- What is in the type of an annotation. -/
def IsTypeSign (c : Char) : Prop :=
  Unicode.isSpace c = false ∧ c ≠ '$' ∧ c ≠ '*'

theorem isTypeSign_of_typedVar? {before : List Char} {k : Nat}
    (h : typedVar? before cs = some (a, k)) : ∀ c ∈ a.type.toList, IsTypeSign c := by
  have htype : ∀ rest : List Char,
      ∀ c ∈ (String.ofList (rest.takeWhile fun c => !Unicode.isSpace c && c ≠ '$' && c ≠ '*')).toList,
        IsTypeSign c := by
    intro rest c hc
    rw [String.toList_ofList] at hc
    simpa [IsTypeSign, and_assoc] using List.mem_takeWhile_imp hc
  unfold typedVar? at h
  obtain ⟨⟨tag, rest⟩, -, h⟩ := Option.bind_eq_some_iff.1 h
  dsimp only at h
  split at h
  · cases h
  split at h
  · cases h
    exact htype rest
  · cases h
    exact htype rest

theorem isTypeSign_of_mem_typedVars (h : a ∈ typedVars cs) : ∀ c ∈ a.type.toList, IsTypeSign c := by
  obtain ⟨⟨start, a'⟩, hscan, rfl⟩ := List.mem_map.1 h
  obtain ⟨pre, post, k, -, -, hf⟩ := mem_scan_nil hscan
  exact isTypeSign_of_typedVar? hf

end Doc

namespace Facts

variable {cs part : List Char} {type name : String}

/-- The alternatives of a type are made of what is in it, without the marks between them. -/
theorem mem_of_mem_typeParts (h : part ∈ typeParts cs) : ∀ c ∈ part, c ∈ cs ∧ c ≠ '|' := by
  induction cs generalizing part with
  | nil =>
    obtain rfl := List.mem_singleton.1 h
    exact nofun
  | cons d cs ih =>
    have hlater : ∀ p ∈ typeParts cs, ∀ c ∈ p, c ∈ d :: cs ∧ c ≠ '|' := fun p hp c hc =>
      ⟨List.mem_cons_of_mem d (ih hp c hc).1, (ih hp c hc).2⟩
    rw [typeParts] at h
    split at h
    · rcases List.mem_cons.1 h with rfl | h
      · exact nofun
      · exact hlater part h
    rename_i hd
    split at h
    · obtain rfl := List.mem_singleton.1 h
      intro c hc
      obtain rfl := List.mem_singleton.1 hc
      exact ⟨List.mem_cons_self, hd⟩
    · rename_i p ps hparts
      rw [hparts] at hlater
      rcases List.mem_cons.1 h with rfl | h
      · intro c hc
        rcases List.mem_cons.1 hc with rfl | hc
        · exact ⟨List.mem_cons_self, hd⟩
        · exact hlater p List.mem_cons_self c hc
      · exact hlater part (List.mem_cons_of_mem p h)

theorem classOfType?_eq_some (h : classOfType? part = some name) :
    (∃ marks space, part = marks ++ (space ++ name.toList) ∧
      (∀ c ∈ marks, c = '?' ∨ c = '(') ∧ (space = [] ∨ space.getLast? = some '\\')) ∧
    name ≠ "" ∧ (∀ c ∈ name.toList, c ≠ '\\' ∧ c ≠ '<') ∧
      Text.endsWith name.toList.reverse ['[', ']'] = false ∧ isPrimitive name = false := by
  let signs := part.takeWhile (· = '?')
  let rest := part.dropWhile (· = '?')
  let bare := rest.dropWhile (· = '(')
  unfold classOfType? at h
  dsimp only at h
  split at h
  · cases h
  rename_i hbare
  split at h
  · cases h
  rename_i hname
  rw [Bool.or_eq_true, not_or, Bool.not_eq_true] at hbare
  rw [Bool.or_eq_true, not_or, decide_eq_true_eq, Bool.not_eq_true] at hname
  cases h
  obtain ⟨space, hsplit, hspace⟩ := exists_append_lastSegment (String.ofList bare)
  rw [String.toList_ofList] at hsplit
  refine ⟨⟨signs ++ rest.takeWhile (· = '('), space, ?_, ?_, hspace⟩, hname.1, ?_, ?_, hname.2⟩
  · rw [List.append_assoc, ← hsplit, List.takeWhile_append_dropWhile, List.takeWhile_append_dropWhile]
  · intro c hc
    rcases List.mem_append.1 hc with hc | hc
    · exact .inl (by simpa using List.mem_takeWhile_imp hc)
    · exact .inr (by simpa using List.mem_takeWhile_imp hc)
  · refine fun c hc => ⟨ne_backslash_of_mem_lastSegment hc, ?_⟩
    rintro rfl
    refine hbare.2 (List.contains_iff_mem.2 ?_)
    change '<' ∈ bare
    rw [hsplit]
    exact List.mem_append_right space hc
  · -- what ends the name ends the alternative
    have hends := hbare.1
    change Text.endsWith bare.reverse ['[', ']'] = false at hends
    rw [Bool.eq_false_iff] at hends ⊢
    intro hbrackets
    refine hends ?_
    rw [Text.endsWith, List.isPrefixOf_iff_prefix] at hbrackets ⊢
    rw [hsplit, List.reverse_append]
    exact hbrackets.trans (List.prefix_append _ _)

/-- **The class that is taken from a type** is what is left of an alternative. -/
theorem alternative_of_firstClass? (htype : ∀ c ∈ type.toList, Doc.IsTypeSign c)
    (h : firstClass? type = some name) :
    Doc.Alternative type name ∧ Doc.isBare name = true ∧ isPrimitive name = false := by
  obtain ⟨part, hpart, hclass⟩ := List.exists_of_findSome?_eq_some h
  obtain ⟨⟨marks, space, rfl, hfront⟩, hne, hchars, hends, hprimitive⟩ := classOfType?_eq_some hclass
  refine ⟨⟨_, hpart, marks, space, rfl, hfront⟩, ?_, hprimitive⟩
  have hall : ∀ c ∈ name.toList, Unicode.isSpace c = false ∧ c ≠ '$' ∧ c ≠ '*' ∧ c ≠ '|' ∧
      c ≠ '\\' ∧ c ≠ '<' := by
    intro c hc
    obtain ⟨hmem, hbar⟩ := mem_of_mem_typeParts hpart c
      (List.mem_append_right _ (List.mem_append_right _ hc))
    obtain ⟨hspace, hdollar, hstar⟩ := htype c hmem
    exact ⟨hspace, hdollar, hstar, hbar, hchars c hc⟩
  rw [Doc.isBare, Bool.and_eq_true, Bool.and_eq_true, List.all_eq_true, decide_eq_true_eq, hends]
  exact ⟨⟨hne, fun c hc => by simpa using hall c hc⟩, rfl⟩

end Facts

end PhpRename
