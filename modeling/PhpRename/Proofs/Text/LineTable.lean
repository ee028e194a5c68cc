import Mathlib.Data.List.DropRight
import PhpRename.Php.Source
import PhpRename.Proofs.Text.Lines

/-!
# Looking lines up

A line is found by a search among the line starts, and its text lies between its own start and the
next one. Both are exact: lines are what is left when a text is split at its newlines.

* `length_takeWhile_starts`: as many line starts lie at or before an offset as there are newline bytes
  before it, also where the offset falls inside a character.
* `lineOf_of_answers`: the line can be read off whatever a search among the line starts answers.
* `getElem?_starts`: a line starts behind the lines before it and their newlines.
* `Source.lines_exact`: **the lines of a source file**, by offset and by number.
-/

namespace PhpRename.Text

variable {cs line : List Char} {lines before after : List (List Char)} {n : Nat}

/-! ## Newline bytes -/

/-- The byte that a newline is. -/
def newlineByte : UInt8 := 10

/-- Only a newline has this byte in it. -/
theorem not_mem_utf8EncodeChar {c : Char} (hc : c ≠ '\n') :
    newlineByte ∉ String.utf8EncodeChar c := by
  -- all bytes of a longer character are at least 128
  have hlarge : ∀ {a b : Nat}, 128 ≤ b → a + b < 256 → UInt8.ofNat (a + b) ≠ newlineByte := by
    intro a b hb hab he
    have := congrArg UInt8.toNat he
    rw [UInt8.toNat_ofNat_of_lt' (by simpa using hab)] at this
    have : newlineByte.toNat = 10 := rfl
    omega
  have hsmall : c.val.toNat ≤ 127 → UInt8.ofNat c.val.toNat ≠ newlineByte := by
    intro hle he
    have hval := congrArg UInt8.toNat he
    rw [UInt8.toNat_ofNat_of_lt' (Nat.lt_of_le_of_lt hle (by decide))] at hval
    exact hc (Char.ext (UInt32.toNat_inj.1 hval))
  unfold String.utf8EncodeChar
  intro hmem
  dsimp only at hmem
  split at hmem
  · rename_i hle
    exact hsmall hle (List.mem_singleton.1 hmem).symm
  · split at hmem
    · simp only [List.mem_cons, List.not_mem_nil, or_false] at hmem
      rcases hmem with h | h <;> exact hlarge (by omega) (by omega) h.symm
    · split at hmem
      · simp only [List.mem_cons, List.not_mem_nil, or_false] at hmem
        rcases hmem with h | h | h <;> exact hlarge (by omega) (by omega) h.symm
      · simp only [List.mem_cons, List.not_mem_nil, or_false] at hmem
        rcases hmem with h | h | h | h <;> exact hlarge (by omega) (by omega) h.symm

/-- The bytes of a text. -/
def bytes (cs : List Char) : List UInt8 :=
  cs.flatMap String.utf8EncodeChar

theorem bytes_toList (s : String) : bytes s.toList = s.toUTF8.data.toList := by
  rw [String.toUTF8, ← String.utf8Encode_toList, List.utf8Encode, List.data_toByteArray]
  rfl

/-- **Line starts count newline bytes.** -/
theorem length_takeWhile_starts (k n : Nat) (cs : List Char) :
    ((startsAfter k cs).takeWhile (· ≤ k + n)).length = ((bytes cs).take n).count newlineByte := by
  induction cs generalizing k n with
  | nil => rw [bytes, List.flatMap_nil, List.take_nil]; rfl
  | cons c cs ih =>
    have hbytes : bytes (c :: cs) = String.utf8EncodeChar c ++ bytes cs := List.flatMap_cons
    by_cases hc : c = '\n'
    · subst hc
      have hnew : String.utf8EncodeChar '\n' = [newlineByte] := rfl
      rw [startsAfter, if_pos rfl, hbytes, hnew, List.singleton_append]
      cases n with
      | zero => simp
      | succ n =>
        rw [List.takeWhile_cons_of_pos (by simp), List.length_cons, List.take_succ_cons,
          List.count_cons_self, ← ih (k + 1) n, show k + (n + 1) = k + 1 + n by omega]
    · have hnone : ∀ j, ((String.utf8EncodeChar c).take j).count newlineByte = 0 := by
        intro j
        refine List.count_eq_zero.2 fun hmem => not_mem_utf8EncodeChar hc (List.mem_of_mem_take hmem)
      rw [startsAfter, if_neg hc, hbytes, List.take_append, List.count_append, hnone, Nat.zero_add,
        String.length_utf8EncodeChar]
      by_cases hn : c.utf8Size ≤ n
      · rw [← ih (k + c.utf8Size), show k + c.utf8Size + (n - c.utf8Size) = k + n by omega]
      · -- inside a character no line has begun
        have hfirst : (startsAfter (k + c.utf8Size) cs).takeWhile (· ≤ k + n) = [] := by
          rw [List.takeWhile_eq_nil_iff]
          intro hpos
          have := lt_of_mem_startsAfter (List.getElem_mem hpos)
          simp only [List.get_eq_getElem, decide_eq_true_eq]
          omega
        rw [hfirst, show n - c.utf8Size = 0 by omega, List.take_zero]
        rfl

theorem lineOf_eq_count (cs : List Char) (n : Nat) :
    lineOf (lineStarts cs) n = 1 + ((bytes cs).take n).count newlineByte := by
  have := length_takeWhile_starts 0 n cs
  rw [Nat.zero_add] at this
  rw [lineOf, lineStarts, List.takeWhile_cons_of_pos (by simp), List.length_cons, this, Nat.add_comm]

/-! ## Searching -/

/-- What a search for a number among ascending ones may answer: a place where it is found, or else the
place where it would have to be put in. -/
inductive Answers (ns : List Nat) (n : Nat) : Except Nat Nat → Prop
  | found {i : Nat} (there : ns[i]? = some n) : Answers ns n (.ok i)
  | missing {i : Nat} (inside : i ≤ ns.length) (below : ∀ m ∈ ns.take i, m < n)
      (above : ∀ m ∈ ns.drop i, n < m) : Answers ns n (.error i)

/-- The line that is read off an answer. -/
def lineOfAnswer : Except Nat Nat → Nat
  | .ok i => i + 1
  | .error i => i

theorem lineOf_of_split {front back : List Nat} (hfront : ∀ m ∈ front, m ≤ n)
    (hback : ∀ m ∈ back, n < m) : lineOf (front ++ back) n = front.length := by
  have hnone : back.takeWhile (· ≤ n) = [] := by
    cases back with
    | nil => rfl
    | cons m back =>
      have := hback m List.mem_cons_self
      exact List.takeWhile_cons_of_neg (by simpa using this)
  rw [lineOf, List.takeWhile_append_of_pos (by simpa using hfront), hnone, List.append_nil]

/-- **The line is what is read off an answer**, whether the offset is a line start or not. -/
theorem lineOf_of_answers {ns : List Nat} (hns : ns.Pairwise (· < ·)) {answer : Except Nat Nat}
    (h : Answers ns n answer) : lineOf ns n = lineOfAnswer answer := by
  cases h with
  | found there =>
    rename_i i
    obtain ⟨hi, hn⟩ := List.getElem?_eq_some_iff.1 there
    rw [← List.take_append_drop (i + 1) ns, List.pairwise_append, List.take_succ_eq_append_getElem hi,
      List.pairwise_append, hn] at hns
    obtain ⟨⟨-, -, hbelow⟩, -, habove⟩ := hns
    have hfront : ∀ m ∈ ns.take (i + 1), m ≤ n := by
      intro m hm
      rw [List.take_succ_eq_append_getElem hi, hn, List.mem_append, List.mem_singleton] at hm
      rcases hm with hm | rfl
      · exact Nat.le_of_lt (hbelow m hm n (List.mem_singleton_self n))
      · exact Nat.le_refl _
    have hback : ∀ m ∈ ns.drop (i + 1), n < m :=
      fun m hm => habove n (List.mem_append_right _ (List.mem_singleton_self n)) m hm
    conv_lhs => rw [← List.take_append_drop (i + 1) ns]
    rw [lineOf_of_split hfront hback, List.length_take, lineOfAnswer]
    omega
  | missing inside below above =>
    rename_i i
    conv_lhs => rw [← List.take_append_drop i ns]
    rw [lineOf_of_split (fun m hm => Nat.le_of_lt (below m hm)) above, List.length_take, lineOfAnswer]
    omega

theorem pairwise_startsAfter (k : Nat) (cs : List Char) : (startsAfter k cs).Pairwise (· < ·) := by
  induction cs generalizing k with
  | nil => exact .nil
  | cons c cs ih =>
    rw [startsAfter]
    split
    · exact .cons (fun i hi => lt_of_mem_startsAfter hi) (ih (k + 1))
    · exact ih _

theorem pairwise_lineStarts (cs : List Char) : (lineStarts cs).Pairwise (· < ·) :=
  .cons (fun _ hi => lt_of_mem_startsAfter hi) (pairwise_startsAfter 0 cs)

/-! ## Lines and their starts -/

/-- A text is one line, or its first newline ends one. -/
theorem splitOn_cases (cs : List Char) :
    ('\n' ∉ cs ∧ cs.splitOn '\n' = [cs]) ∨
      ∃ line rest, '\n' ∉ line ∧ cs = line ++ '\n' :: rest ∧
        cs.splitOn '\n' = line :: rest.splitOn '\n' := by
  by_cases hmem : '\n' ∈ cs
  · obtain ⟨line, rest, rfl, hline⟩ := List.eq_append_cons_of_mem hmem
    refine .inr ⟨line, rest, hline, rfl, ?_⟩
    rw [List.splitOn_append_cons_of_beq _ _ (beq_self_eq_true '\n'), List.splitOn_eq_singleton hline,
      List.singleton_append]
  · exact .inl ⟨hmem, List.splitOn_eq_singleton hmem⟩

theorem length_splitOn (cs : List Char) : (cs.splitOn '\n').length = cs.count '\n' + 1 := by
  induction cs with
  | nil => rfl
  | cons c cs ih =>
    rw [List.splitOn_cons_eq_if_modifyHead]
    split
    · rename_i hc
      rw [List.length_cons, ih, beq_iff_eq.1 hc, List.count_cons_self]
    · rename_i hc
      rw [List.length_modifyHead, ih, List.count_cons_of_ne (by simpa using hc)]

/-- The lines with a newline behind each. -/
def ended (lines : List (List Char)) : List Char :=
  lines.flatMap (· ++ ['\n'])

/-- The number of bytes that lines take with a newline behind each. -/
def extent (lines : List (List Char)) : Nat :=
  width (ended lines)

theorem ended_cons (line : List Char) (lines : List (List Char)) :
    ended (line :: lines) = line ++ '\n' :: ended lines := by
  rw [ended, List.flatMap_cons, List.append_assoc]
  rfl

theorem extent_cons (line : List Char) (lines : List (List Char)) :
    extent (line :: lines) = width line + 1 + extent lines := by
  have hnew : ('\n').utf8Size = 1 := rfl
  rw [extent, ended_cons, width_append, width_cons, hnew, ← extent, Nat.add_assoc]

theorem count_ended (h : ∀ line ∈ lines, '\n' ∉ line) : (ended lines).count '\n' = lines.length := by
  induction lines with
  | nil => rfl
  | cons line lines ih =>
    rw [List.forall_mem_cons] at h
    rw [ended_cons, List.count_append, List.count_eq_zero.2 h.1, List.count_cons_self, ih h.2,
      List.length_cons, Nat.zero_add]

/-- **Where a line stands in its text**: behind the lines before it and their newlines, and in front of a
newline if it is not the last one. -/
theorem exists_rest (h : cs.splitOn '\n' = before ++ line :: after) :
    ∃ rest, cs = ended before ++ (line ++ rest) ∧ '\n' ∉ line ∧
      (after = [] ∧ rest = [] ∨ after ≠ [] ∧ ∃ next, rest = '\n' :: next) := by
  induction before generalizing cs with
  | nil =>
    rcases splitOn_cases cs with ⟨hnone, hsplit⟩ | ⟨first, next, hfirst, rfl, hsplit⟩
    · rw [hsplit] at h
      obtain ⟨rfl, rfl⟩ := List.cons.inj h
      exact ⟨[], (List.append_nil cs).symm, hnone, .inl ⟨rfl, rfl⟩⟩
    · rw [hsplit] at h
      obtain ⟨rfl, rfl⟩ := List.cons.inj h
      exact ⟨'\n' :: next, rfl, hfirst, .inr ⟨List.splitOn_ne_nil _ _, next, rfl⟩⟩
  | cons first before ih =>
    rcases splitOn_cases cs with ⟨-, hsplit⟩ | ⟨first', next, -, rfl, hsplit⟩
    · rw [hsplit] at h
      have := congrArg List.length h
      simp only [List.length_cons, List.length_append, List.length_nil] at this
      omega
    · rw [hsplit] at h
      obtain ⟨rfl, htail⟩ := List.cons.inj h
      obtain ⟨rest, rfl, hline, hrest⟩ := ih htail
      refine ⟨rest, ?_, hline, hrest⟩
      rw [ended_cons, List.append_assoc, List.cons_append]

theorem startsAfter_of_not_mem (h : '\n' ∉ cs) (k : Nat) : startsAfter k cs = [] := by
  rw [← List.length_eq_zero_iff, length_startsAfter, List.count_eq_zero]
  exact h

/-- **A line starts behind the lines before it** and their newlines. -/
theorem getElem?_starts (k : Nat) (hlines : ∀ line ∈ lines, '\n' ∉ line) (tail : List Char) :
    (k :: startsAfter k (ended lines ++ tail))[lines.length]? = some (k + extent lines) := by
  induction lines generalizing k with
  | nil => rfl
  | cons line lines ih =>
    rw [List.forall_mem_cons] at hlines
    have hnext : startsAfter k (ended (line :: lines) ++ tail) =
        (k + width line + 1) :: startsAfter (k + width line + 1) (ended lines ++ tail) := by
      rw [ended_cons, List.append_assoc, startsAfter_append, startsAfter_of_not_mem hlines.1,
        List.nil_append, List.cons_append, startsAfter, if_pos rfl]
    rw [List.length_cons, List.getElem?_cons_succ, hnext, ih _ hlines.2, extent_cons]
    congr 1
    omega

theorem not_mem_of_mem_splitOn (h : line ∈ cs.splitOn '\n') : '\n' ∉ line := by
  obtain ⟨before, after, hsplit⟩ := List.append_of_mem h
  obtain ⟨-, -, hline, -⟩ := exists_rest hsplit
  exact hline

theorem length_lineStarts (cs : List Char) : (lineStarts cs).length = (cs.splitOn '\n').length := by
  rw [lineStarts, List.length_cons, length_startsAfter, length_splitOn]

/-! ## The text of a line -/

theorem dropWhile_congr {p q : Char → Bool} (h : ∀ c ∈ cs, p c = q c) :
    cs.dropWhile p = cs.dropWhile q := by
  induction cs with
  | nil => rfl
  | cons c cs ih =>
    rw [List.forall_mem_cons] at h
    rw [List.dropWhile_cons, List.dropWhile_cons, h.1, ih h.2]

/-- Of a line only carriage returns are dropped. -/
theorem dropLineEnds_of_not_mem (h : '\n' ∉ line) :
    dropLineEnds line = line.rdropWhile (· = '\r') := by
  have hends : ∀ c ∈ line.reverse, isLineEnd c = decide (c = '\r') := by
    intro c hc
    have hne : c ≠ '\n' := fun he => h (he ▸ List.mem_reverse.1 hc)
    rw [isLineEnd, decide_eq_false hne, Bool.false_or]
  rw [dropLineEnds, dropWhile_congr hends, List.rdropWhile]

theorem dropLineEnds_concat (line : List Char) :
    dropLineEnds (line ++ ['\n']) = dropLineEnds line := by
  rw [dropLineEnds, List.reverse_append, List.reverse_singleton, List.singleton_append,
    List.dropWhile_cons_of_pos (by rfl), dropLineEnds]

/-- **The text of a line.** -/
theorem lineText_of_splitOn (h : cs.splitOn '\n' = before ++ line :: after) :
    lineText cs (lineStarts cs) (before.length + 1) = line.rdropWhile (· = '\r') := by
  obtain ⟨rest, hcs, hline, hrest⟩ := exists_rest h
  have hbefore : ∀ l ∈ before, '\n' ∉ l := fun l hl =>
    not_mem_of_mem_splitOn (h ▸ List.mem_append_left _ hl)
  have hstart : (lineStarts cs)[before.length]? = some (extent before) := by
    rw [lineStarts, hcs, getElem?_starts 0 hbefore, Nat.zero_add]
  rw [lineText, hstart]
  dsimp only
  have hwidth : width (ended before) = extent before := rfl
  rcases hrest with ⟨rfl, rfl⟩ | ⟨-, next, rfl⟩
  · -- the last line ends where the text ends
    have hlast : (lineStarts cs)[before.length + 1]? = none := by
      rw [List.getElem?_eq_none_iff, length_lineStarts, h, List.length_append]
      exact Nat.le_refl _
    rw [hlast, Option.getD_none, hcs, List.append_nil]
    have := slice_append [] hwidth (rfl : width (ended before ++ line) = _)
    rw [List.append_nil] at this
    rw [this, dropLineEnds_of_not_mem hline]
  · -- before the next line there is the newline, which is dropped
    have hmore : ∀ l ∈ before ++ [line], '\n' ∉ l :=
      List.forall_mem_append.2 ⟨hbefore, List.forall_mem_singleton.2 hline⟩
    have hcs' : cs = ended before ++ (line ++ ['\n']) ++ next := by
      rw [hcs, List.append_assoc, List.append_assoc, List.singleton_append]
    have hended : ended (before ++ [line]) = ended before ++ (line ++ ['\n']) := by
      rw [ended, List.flatMap_append, List.flatMap_singleton, ended]
    have hnext : (lineStarts cs)[before.length + 1]? = some (extent (before ++ [line])) := by
      have := getElem?_starts 0 hmore next
      rwa [List.length_append, List.length_singleton, hended, ← hcs', Nat.zero_add] at this
    rw [hnext, Option.getD_some, ← hwidth, extent, hended, hcs',
      slice_append next rfl rfl, dropLineEnds_concat, dropLineEnds_of_not_mem hline]

theorem lineText_of_length_lt (h : (cs.splitOn '\n').length < n) :
    lineText cs (lineStarts cs) n = [] := by
  cases n with
  | zero => rfl
  | succ k =>
    have hnone : (lineStarts cs)[k]? = none := by
      rw [List.getElem?_eq_none_iff, length_lineStarts]
      exact Nat.le_of_lt_succ h
    rw [lineText, hnone]

/-! ## The line of an offset -/

/-- Every offset in a text lies in one of its lines, or at the end of one. -/
theorem exists_line (h : n ≤ width cs) : ∃ before line after,
    cs.splitOn '\n' = before ++ line :: after ∧ extent before ≤ n ∧
      n ≤ extent before + width line := by
  induction hlen : cs.length using Nat.strongRecOn generalizing cs n with
  | ind len ih =>
    rcases splitOn_cases cs with ⟨-, hsplit⟩ | ⟨line, rest, -, rfl, hsplit⟩
    · exact ⟨[], cs, [], hsplit, Nat.zero_le n, by simpa [extent, ended] using h⟩
    · by_cases hn : n ≤ width line
      · exact ⟨[], line, rest.splitOn '\n', hsplit, Nat.zero_le n, by simpa [extent, ended] using hn⟩
      · -- the offset is behind the first line
        have hnew : ('\n').utf8Size = 1 := rfl
        rw [width_append, width_cons, hnew] at h
        have hshort : rest.length < len := by
          rw [← hlen, List.length_append, List.length_cons]
          omega
        obtain ⟨before, found, after, hrest, hlow, hhigh⟩ :=
          ih _ hshort (n := n - (width line + 1)) (by omega) rfl
        refine ⟨line :: before, found, after, by rw [hsplit, hrest, List.cons_append], ?_, ?_⟩
        · rw [extent_cons]
          omega
        · rw [extent_cons]
          omega

/-- **The line of an offset** is the one that it lies in. -/
theorem lineOf_of_splitOn (h : cs.splitOn '\n' = before ++ line :: after)
    (hlow : extent before ≤ n) (hhigh : n ≤ extent before + width line) :
    lineOf (lineStarts cs) n = before.length + 1 := by
  obtain ⟨rest, rfl, hline, hrest⟩ := exists_rest h
  have hbefore : ∀ l ∈ before, '\n' ∉ l := fun l hl =>
    not_mem_of_mem_splitOn (h ▸ List.mem_append_left _ hl)
  have hcut : lineStarts (ended before ++ (line ++ rest)) = (0 :: startsAfter 0 (ended before)) ++
      startsAfter (extent before + width line) rest := by
    rw [lineStarts, startsAfter_append, startsAfter_append, startsAfter_of_not_mem hline,
      ← extent, Nat.zero_add, List.nil_append, List.cons_append]
  have hfront : ∀ m ∈ 0 :: startsAfter 0 (ended before), m ≤ n := by
    intro m hm
    rcases List.mem_cons.1 hm with rfl | hm
    · exact Nat.zero_le n
    · have := le_of_mem_startsAfter hm
      rw [← extent] at this
      omega
  have hback : ∀ m ∈ startsAfter (extent before + width line) rest, n < m := by
    intro m hm
    have := lt_of_mem_startsAfter hm
    omega
  have hlength : (startsAfter 0 (ended before)).length = before.length := by
    rw [length_startsAfter, count_ended hbefore]
  rw [hcut, lineOf_of_split hfront hback, List.length_cons, hlength]

end PhpRename.Text

namespace PhpRename.Php.Source

open Text

/-- **The lines of a source file.** The line of an offset, wherever that lies, is one more than the number
of newline bytes before it, and that is what a search among the line starts leads to. The lines are the
pieces between newlines; the text of a line is its piece without the carriage returns at its end, and
nothing is the text of a line that is not there. So every offset in the file lies in the line that has
its number, or at the end of that line. -/
theorem lines_exact (path : Path) (content : String) :
    let s := Source.read path content
    let lines := content.toList.splitOn '\n'
    (∀ offset, s.lineOf offset =
      1 + (content.toUTF8.data.toList.take offset).count newlineByte) ∧
    (∀ offset answer, Answers s.starts offset answer → s.lineOf offset = lineOfAnswer answer) ∧
    (∀ n, 1 ≤ n → n ≤ content.toList.count '\n' + 1 → ∃ line, lines[n - 1]? = some line ∧
      s.lineText n = String.ofList (line.rdropWhile (· = '\r'))) ∧
    (∀ n, n = 0 ∨ content.toList.count '\n' + 1 < n → s.lineText n = "") ∧
    (∀ offset ≤ content.utf8ByteSize, ∃ before line after, lines = before ++ line :: after ∧
      s.lineOf offset = before.length + 1 ∧
      extent before ≤ offset ∧ offset ≤ extent before + width line) := by
  intro s lines
  have hcount : lines.length = content.toList.count '\n' + 1 := length_splitOn content.toList
  refine ⟨fun offset => ?_, fun offset answer h => ?_, fun n hpos hn => ?_, fun n hn => ?_,
    fun offset hoffset => ?_⟩
  · rw [← bytes_toList]
    exact lineOf_eq_count content.toList offset
  · exact lineOf_of_answers (pairwise_lineStarts content.toList) h
  · obtain ⟨k, rfl⟩ : ∃ k, n = k + 1 := ⟨n - 1, by omega⟩
    have hk : k < lines.length := by omega
    refine ⟨lines[k], List.getElem?_eq_getElem hk, ?_⟩
    have hsplit : lines = lines.take k ++ lines[k] :: lines.drop (k + 1) := by
      rw [← List.drop_eq_getElem_cons hk, List.take_append_drop]
    have htext : Text.lineText content.toList s.starts ((lines.take k).length + 1) =
        lines[k].rdropWhile (· = '\r') := lineText_of_splitOn hsplit
    rw [List.length_take, Nat.min_eq_left (Nat.le_of_lt hk)] at htext
    exact congrArg String.ofList htext
  · rcases hn with rfl | hn
    · rfl
    · exact congrArg String.ofList (lineText_of_length_lt (hcount ▸ hn))
  · rw [utf8ByteSize_eq_width] at hoffset
    obtain ⟨before, line, after, hsplit, hlow, hhigh⟩ := exists_line hoffset
    exact ⟨before, line, after, hsplit, lineOf_of_splitOn hsplit hlow hhigh, hlow, hhigh⟩

/-- Offsets inside a character, at a line start, at the end, and beyond it. -/
theorem lines_exact_accented :
    let s := Source.read ⟨"/p/t.php"⟩ "é\r\r\n\nb"
    (s.lineOf 1 = 1 ∧ s.lineOf 5 = 2 ∧ s.lineOf 7 = 3 ∧ s.lineOf 99 = 3) ∧
      s.lineText 1 = "é" ∧ s.lineText 2 = "" ∧ s.lineText 4 = "" := by
  intro s
  obtain ⟨hoffset, hsearch, htext, hnone, -⟩ := lines_exact ⟨"/p/t.php"⟩ "é\r\r\n\nb"
  obtain ⟨first, hfirst, hfirstText⟩ := htext 1 (by decide) (by decide +kernel)
  obtain ⟨second, hsecond, hsecondText⟩ := htext 2 (by decide) (by decide +kernel)
  have hé : first = ['é', '\r', '\r'] := Option.some.inj (hfirst.symm.trans (by decide +kernel))
  have hempty : second = [] := Option.some.inj (hsecond.symm.trans (by decide +kernel))
  have hstart : Answers s.starts 5 (.ok 1) := .found (by decide +kernel)
  refine ⟨⟨(hoffset 1).trans (by decide +kernel), hsearch 5 (.ok 1) hstart,
    (hoffset 7).trans (by decide +kernel), (hoffset 99).trans (by decide +kernel)⟩,
    hfirstText.trans ?_, hsecondText.trans ?_, hnone 4 (.inr (by decide +kernel))⟩
  · rw [hé]
    decide +kernel
  · rw [hempty]
    decide +kernel

end PhpRename.Php.Source
