import PhpRename.Php.Lexeme

/-!
# Small letters

Keywords are compared in small letters. Texts in small letters are the same if their characters are,
one by one, which is how a comparison of given words is decided.

* `lowercase_eq_iff`, `mem_map_lowercase_iff`: comparing texts in small letters.
* `lowercase_lowercase`: a text in small letters stays as it is.
-/

namespace PhpRename.Php

variable {s t : String} {words : List String}

theorem toList_lowercase (s : String) : (lowercase s).toList = s.toList.map lowerAscii :=
  String.toList_map

theorem lowercase_eq_iff : lowercase s = t ↔ s.toList.map lowerAscii = t.toList := by
  rw [← toList_lowercase, String.toList_inj]

theorem lowercase_eq_lowercase_iff :
    lowercase s = lowercase t ↔ s.toList.map lowerAscii = t.toList.map lowerAscii := by
  rw [lowercase_eq_iff, toList_lowercase]

theorem mem_map_lowercase_iff : lowercase s ∈ words.map lowercase ↔
    s.toList.map lowerAscii ∈ words.map fun w => w.toList.map lowerAscii := by
  rw [List.mem_map, List.mem_map]
  exact exists_congr fun w => and_congr_right fun _ => lowercase_eq_lowercase_iff

theorem lowerAscii_lowerAscii (c : Char) : lowerAscii (lowerAscii c) = lowerAscii c := by
  by_cases hc : 'A' ≤ c ∧ c ≤ 'Z'
  · have hlow : 65 ≤ c.toNat := hc.1
    have hhigh : c.toNat ≤ 90 := hc.2
    have hall : ∀ n < 91, 65 ≤ n → lowerAscii (Char.ofNat (n + 32)) = Char.ofNat (n + 32) := by
      decide
    have hlower : lowerAscii c = Char.ofNat (c.toNat + 32) := if_pos hc
    rw [hlower]
    exact hall c.toNat (by omega) hlow
  · have hlower : lowerAscii c = c := if_neg hc
    rw [hlower, hlower]

theorem lowercase_lowercase (s : String) : lowercase (lowercase s) = lowercase s := by
  apply String.toList_injective
  simp only [lowercase, String.toList_map, List.map_map]
  exact List.map_congr_left fun c _ => lowerAscii_lowerAscii c

end PhpRename.Php
