import PhpRename.Proofs.Php.Cut
import PhpRename.Proofs.Php.Read
import PhpRename.Proofs.Php.Scope
import PhpRename.Proofs.Php.Site

/-!
# The tokens of a file are its content

Whatever a file holds, the reader gives each lexeme that is not called blank one token, in its
place, with its text and its line. The lexemes are the content, cut up, so the tokens of a file are
its content without blanks, and each stands in a scope of the file's list.

* `Reader.spans_run`: tokens are lexemes, as far as their places go.
* `Source.tokenized_read`: so the tokens of a file stand in its content where they say.
* `Source.wellCut_read`: all that a reader of tokens may rely on.
-/

namespace PhpRename.Php

open Text

/-- Where the token stands. -/
def Token.span (t : Token) : Span :=
  ⟨t.text, t.offset, t.line⟩

/-- **Tokens are lexemes**, as far as their places go: each lexeme that is not called blank gives
one. -/
theorem Reader.spans_run (st : Reader) (look ls : List Lexeme) :
    (st.run look ls).1.map Token.span = (ls.filter (·.kind ≠ .blank)).map Lexeme.span := by
  induction ls generalizing st look with
  | nil => rfl
  | cons l rest ih =>
    rw [run]
    split
    · rename_i hblank
      rw [List.filter_cons_of_neg (by simpa using hblank)]
      exact ih st look
    · rename_i hblank
      rw [List.filter_cons_of_pos (by simpa using hblank), List.map_cons]
      split
      · rw [List.map_cons, ih]
        rfl
      · rw [List.map_cons, ih]
        rfl

/-- What a reader of tokens may rely on. -/
structure Source.WellCut (s : Source) : Prop where
  /-- Tokens begin one after the other. -/
  ascending : s.Ascending
  /-- Each token ends before the next one begins. -/
  apart : s.tokens.Pairwise fun t u => t.stop ≤ u.offset
  holds : ∀ t ∈ s.tokens, t.text ≠ ""
  /-- Tokens begin and end between two characters. -/
  boundaries : ∀ t ∈ s.tokens,
    isBoundary s.content.toList t.offset = true ∧ isBoundary s.content.toList t.stop = true
  text : ∀ t ∈ s.tokens, slice s.content.toList t.offset t.stop = t.text.toList
  line : ∀ t ∈ s.tokens, t.line = s.lineOf t.offset
  /-- The line is counted by the newlines in front of the token. -/
  newlines : ∀ t ∈ s.tokens, t.line = (upTo s.content.toList t.offset).count '\n' + 1
  /-- What is no blank belongs to a token. -/
  covers : ∀ before c after, s.content.toList = before ++ c :: after → isBlank c = false →
    ∃ t ∈ s.tokens, t.offset ≤ width before ∧ width before < t.stop
  scope : ∀ t ∈ s.tokens, t.scope < s.scopes.length
  /-- The first scope is the file's own, neither class nor function. -/
  file : s.scopes.head? = some ⟨none, none⟩

namespace Source

variable (path : Path) (content : String)

theorem spans_read : (read path content).tokens.map Token.span =
    ((lexemes content.toList).filter (·.kind ≠ .blank)).map Lexeme.span :=
  Reader.spans_run Reader.start _ _

/-- Each token of a file stands where a lexeme stands. -/
theorem exists_lexeme {t : Token} (ht : t ∈ (read path content).tokens) :
    ∃ l ∈ lexemes content.toList, l.span = t.span := by
  have hspan := List.mem_map_of_mem (f := Token.span) ht
  rw [spans_read] at hspan
  obtain ⟨l, hl, he⟩ := List.mem_map.1 hspan
  exact ⟨l, List.mem_of_mem_filter hl, he⟩

theorem placed_of_mem_read {t : Token} (ht : t ∈ (read path content).tokens) :
    t.span.Placed content.toList := by
  obtain ⟨l, hl, he⟩ := exists_lexeme path content ht
  exact he ▸ (cuts_lexemes content.toList).placed l hl

theorem pairwise_read :
    (read path content).tokens.Pairwise fun t u => t.stop ≤ u.offset := by
  have hlexemes := (cuts_lexemes content.toList).pairwise.filter (·.kind ≠ .blank)
  have hspans : ((lexemes content.toList).filter (·.kind ≠ .blank)).map Lexeme.span
      |>.Pairwise fun s t => s.stop ≤ t.offset := List.pairwise_map.2 hlexemes
  rw [← spans_read path content] at hspans
  exact List.pairwise_map.1 hspans

/-- **The tokens of a file that has been read stand in its content** where they say. -/
theorem tokenized_read : (read path content).Tokenized := by
  refine ⟨rfl, fun t ht => (placed_of_mem_read path content ht).stands, fun t ht => ?_⟩
  have hplaced := placed_of_mem_read path content ht
  have hboundary := hplaced.stands.isBoundary_start
  rw [lineOf, read]
  exact hplaced.line.trans (lineOf_lineStarts hboundary).symm

theorem covers_read {before after : List Char} {c : Char}
    (hcontent : content.toList = before ++ c :: after) (hc : isBlank c = false) :
    ∃ t ∈ (read path content).tokens, t.offset ≤ width before ∧ width before < t.stop := by
  obtain ⟨l, hl, hkind, hhas⟩ := (cuts_lexemes content.toList).covers hcontent hc
  have hspan : l.span ∈ (read path content).tokens.map Token.span := by
    rw [spans_read]
    exact List.mem_map_of_mem (List.mem_filter.2 ⟨hl, by simpa using hkind⟩)
  obtain ⟨t, ht, he⟩ := List.mem_map.1 hspan
  rw [← he, List.nil_append] at hhas
  exact ⟨t, ht, hhas⟩

/-- **Every file that has been read is well cut**, whatever it holds. -/
theorem wellCut_read : (read path content).WellCut := by
  have htokenized := tokenized_read path content
  obtain ⟨hgrown, hscope⟩ := Reader.scopes_run Reader.valid_start
    ((lexemes content.toList).filter fun l => !Reader.isSilent l) (lexemes content.toList)
  refine ⟨ascending_read path content, pairwise_read path content, ?_, ?_, ?_, htokenized.line, ?_,
    fun _ _ _ => covers_read path content, hscope, ?_⟩
  · intro t ht
    exact (placed_of_mem_read path content ht).holds
  · intro t ht
    have hstands := htokenized.text t ht
    exact ⟨hstands.isBoundary_start, hstands.isBoundary_stop⟩
  · intro t ht
    exact (htokenized.text t ht).slice_eq
  · intro t ht
    exact (placed_of_mem_read path content ht).line
  · obtain ⟨more, hmore⟩ := hgrown
    have hscopes : (read path content).scopes = Reader.start.scopes ++ more := hmore.symm
    rw [hscopes]
    rfl

end Source

end PhpRename.Php
