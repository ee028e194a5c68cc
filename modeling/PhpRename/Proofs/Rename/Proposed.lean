import PhpRename.Proofs.Doc.Tag
import PhpRename.Proofs.Mention.Place
import PhpRename.Proofs.Php.Site
import PhpRename.Rename.Proposer

/-!
# What proposers propose

For each proposer, when it proposes an edit at a site and which (`mem_classEdits` and so on).
From that, where the edit lies in the token:

* `Proposer.Means`: the text that a proposer means to replace.
* `Proposer.exists_replaced`: every proposed edit replaces a piece of the token at its site, and
  that piece is what the proposer means.
-/

namespace PhpRename.Rename

open Php Text

variable {s : Site} {e : Edit} {old new : String}

theorem mem_classEdits : e ∈ classEdits old new s ↔
    s.token.kind = .name ∧ s.token.text = old ∧
      ¬ (beforeQualified s.token (Site.code s.before)).any precedesMember = true ∧
      (s.isCalled = true →
        (beforeQualified s.token (Site.code s.before)).any (·.isKeyword "new") = true) ∧
      e = replaceToken s new .certain := by
  unfold classEdits
  by_cases hk : s.token.kind = .name
  swap
  · simp [hk]
  by_cases ht : s.token.text = old
  swap
  · simp [ht]
  cases hm : (beforeQualified s.token (Site.code s.before)).any precedesMember <;>
    cases s.isCalled <;>
      cases hn : (beforeQualified s.token (Site.code s.before)).any (·.isKeyword "new") <;>
        simp [hk, ht, hm, hn]

theorem mem_methodEdits {target : String} {db : Symbols} : e ∈ methodEdits target old new db s ↔
    s.token.kind = .name ∧ s.token.text = old ∧
      ∃ front c, s.prevCode? = some front ∧ methodConfidence db target s front = some c ∧
        e = replaceToken s new c := by
  unfold methodEdits
  by_cases hk : s.token.kind = .name
  swap
  · simp [hk]
  by_cases ht : s.token.text = old
  swap
  · simp [ht]
  cases hp : s.prevCode? with
  | none => simp [hk, ht]
  | some front => cases hm : methodConfidence db target s front <;> simp [hk, ht, hm]

theorem mem_annotationEdits : e ∈ annotationEdits old new s ↔
    s.token.kind = .docComment ∧ ∃ start types place,
      (start, types) ∈ Doc.typeLists s.token.text.toList ∧
        place ∈ Mention.wordPlaces old.toList types ∧
        e = replaceWithin s (start + place) old.utf8ByteSize new .certain := by
  unfold annotationEdits
  by_cases hk : s.token.kind = .docComment
  · simp only [hk, ne_eq, not_true_eq_false, if_false, List.mem_flatMap, List.mem_map, Prod.exists,
      true_and]
    constructor
    · rintro ⟨start, types, ht, place, hp, rfl⟩
      exact ⟨start, types, place, ht, hp, rfl⟩
    · rintro ⟨start, types, place, ht, hp, rfl⟩
      exact ⟨start, types, ht, place, hp, rfl⟩
  · simp [hk]

theorem mem_mentionEdits {rules : List Mention.Rule} : e ∈ mentionEdits rules s ↔
    ∃ p ∈ Mention.find rules s.token.text.toList,
      e = replaceWithin s p.start (p.stop - p.start) p.replacement .ambiguous := by
  unfold mentionEdits
  simp only [List.mem_map, eq_comm]

theorem mem_commentEdits {rules : List Mention.Rule} :
    e ∈ commentEdits rules s ↔ s.token.isComment = true ∧ e ∈ mentionEdits rules s := by
  unfold commentEdits
  cases s.token.isComment <;> simp

theorem mem_stringEdits {rules : List Mention.Rule} : e ∈ stringEdits rules s ↔
    s.token.kind = .string ∧ s.target? = none ∧ e ∈ mentionEdits rules s := by
  unfold stringEdits
  by_cases hk : s.token.kind = .string <;> cases s.target? <;> simp [hk]

theorem mem_includeEdits {old new : Path} : e ∈ includeEdits old new s ↔
    ∃ t literal c, s.target? = some t ∧ movedLiteral? old new t s.path = some (literal, c) ∧
      literal ≠ t.literal ∧
      e = ⟨s.path, t.offset, t.literal.utf8ByteSize, literal, c, s.token.line⟩ := by
  unfold includeEdits
  cases ht : s.target? with
  | none => simp
  | some t =>
    cases hm : movedLiteral? old new t s.path with
    | none => simp [hm]
    | some moved =>
      obtain ⟨literal, c⟩ := moved
      by_cases hl : literal = t.literal <;> simp [hm, hl]

/-! ## Where edits lie -/

/-- The edit replaces `text`, which stands behind `front` in the token at the site. -/
structure Replaced (s : Site) (e : Edit) (front text : List Char) : Prop where
  file : e.file = s.path
  stands : ∃ rest, s.token.text.toList = front ++ text ++ rest
  offset : e.offset = s.token.offset + width front
  length : e.length = width text
  /-- The line is taken from the offset, or from the token when no newline lies between. -/
  line : e.line = s.source.lineOf e.offset ∨ e.line = s.token.line ∧ '\n' ∉ front

theorem Replaced.offset_ge {front text : List Char} (h : Replaced s e front text) :
    s.token.offset ≤ e.offset := by
  rw [h.offset]; exact Nat.le_add_right ..

theorem Replaced.stop_le {front text : List Char} (h : Replaced s e front text) :
    e.stop ≤ s.token.stop := by
  obtain ⟨rest, ht⟩ := h.stands
  have hoff := h.offset
  have hlen := h.length
  unfold Edit.stop Token.stop
  rw [utf8ByteSize_eq_width, ht, width_append, width_append]
  omega

theorem replaced_token (s : Site) (new : String) (c : Confidence) :
    Replaced s (replaceToken s new c) [] s.token.text.toList :=
  ⟨rfl, ⟨[], by simp⟩, rfl, utf8ByteSize_eq_width _, .inr ⟨rfl, List.not_mem_nil⟩⟩

theorem exists_replaced_within {text : List Char} {start stop length : Nat}
    (h : StandsAt s.token.text.toList text start stop) (hl : length = width text) (new : String)
    (c : Confidence) : ∃ front, width front = start ∧
      Replaced s (replaceWithin s start length new c) front text := by
  obtain ⟨front, rest, ht, rfl, -⟩ := h
  exact ⟨front, rfl, rfl, ⟨rest, ht⟩, rfl, hl, .inl rfl⟩

end PhpRename.Rename

namespace PhpRename.Proposer

open Php Text

/-- The text that the proposer means to replace with the edit: an old name, what one of its rules
has matched, or all that stands between the quotes of a literal. -/
def Means (p : Proposer) (s : Site) (e : Edit) (text : List Char) : Prop :=
  match p with
  | classes old _ | annotations old _ | methods _ old _ => text = old.toList
  | comments rules | strings rules => ∃ rule ∈ rules,
      ∃ place ∈ rule.candidates s.token.text.toList,
        e.offset = s.token.offset + place.start ∧ e.stop = s.token.offset + place.stop ∧
          e.replacement = place.replacement ∧ rule.Matched s.token.text.toList place text
  | includes _ _ => ∃ quote, (quote = '\'' ∨ quote = '"') ∧
      s.token.text.toList = quote :: text ++ [quote]

variable {p : Proposer} {db : Symbols} {s : Site} {e : Edit}

theorem exists_replaced_of_mention {rules : List Mention.Rule} (h : e ∈ Rename.mentionEdits rules s) :
    ∃ front text, Rename.Replaced s e front text ∧ (comments rules).Means s e text := by
  obtain ⟨place, hp, rfl⟩ := Rename.mem_mentionEdits.1 h
  obtain ⟨rule, hr, hc⟩ := Mention.exists_rule_of_mem_find hp
  obtain ⟨text, hm, hs⟩ := Mention.Rule.exists_matched hc
  have hstop := hs.stop_eq
  obtain ⟨front, hf, hrep⟩ := Rename.exists_replaced_within hs
    (show place.stop - place.start = width text by omega) place.replacement .ambiguous
  refine ⟨front, text, hrep, rule, hr, place, hc, rfl, ?_, rfl, hm⟩
  show s.token.offset + place.start + (place.stop - place.start) = s.token.offset + place.stop
  omega

/-- **Every proposed edit replaces a piece of the token at its site**, and that piece is what the
proposer means. -/
theorem exists_replaced (h : e ∈ p.edits db s) :
    ∃ front text, Rename.Replaced s e front text ∧ p.Means s e text := by
  cases p with
  | classes old new =>
    obtain ⟨-, rfl, -, -, rfl⟩ := Rename.mem_classEdits.1 h
    exact ⟨[], _, Rename.replaced_token s new .certain, rfl⟩
  | annotations old new =>
    obtain ⟨-, start, types, place, ht, hp, rfl⟩ := Rename.mem_annotationEdits.1 h
    have hs := (Doc.standsAt_of_mem_typeLists ht).within (Mention.standsAt_of_mem_wordPlaces hp)
    obtain ⟨front, -, hrep⟩ :=
      Rename.exists_replaced_within hs (utf8ByteSize_eq_width old) new .certain
    exact ⟨front, _, hrep, rfl⟩
  | comments rules => exact exists_replaced_of_mention (Rename.mem_commentEdits.1 h).2
  | strings rules => exact exists_replaced_of_mention (Rename.mem_stringEdits.1 h).2.2
  | methods cls old new =>
    obtain ⟨-, rfl, front, c, -, -, rfl⟩ := Rename.mem_methodEdits.1 h
    exact ⟨[], _, Rename.replaced_token s new c, rfl⟩
  | includes old new =>
    obtain ⟨t, literal, c, ht, -, -, rfl⟩ := Rename.mem_includeEdits.1 h
    obtain ⟨hlit, hoff⟩ := Site.target?_eq_some ht
    obtain ⟨-, quote, hq, htext⟩ := Token.literal?_eq_some hlit
    have hw : width [quote] = 1 := by rcases hq with rfl | rfl <;> rfl
    have hn : '\n' ∉ [quote] := by rcases hq with rfl | rfl <;> decide
    exact ⟨[quote], t.literal.toList, ⟨rfl, ⟨[quote], htext⟩, by rw [hw]; exact hoff,
      utf8ByteSize_eq_width _, .inr ⟨rfl, hn⟩⟩, quote, hq, htext⟩

end PhpRename.Proposer
