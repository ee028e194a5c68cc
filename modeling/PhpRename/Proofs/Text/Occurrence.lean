import Mathlib.Data.List.Pairwise
import PhpRename.Proofs.Text.Boundary
import PhpRename.Text.Scan

/-!
# Where a piece of text stands

* `StandsAt`: a piece stands in a text between two byte offsets. What stands in a piece stands in
  the text (`StandsAt.within`).
* `mem_scan`: what a scan reports was found between what is before a place and what is after it.
* `mem_scan_of_find`: a scan reports what is found behind its earlier finds.
* `scan_pairwise`: what a scan reports does not reach into what it reports later.
* `mem_scan_behind`, `mem_scan_widen`: when a scan of a piece by itself reports what the scan of the
  whole text reports there.
-/

namespace PhpRename.Text

variable {text piece part as bs cs : List Char} {start stop m n : Nat}

/-- The piece stands in the text from byte `start` to byte `stop`. -/
def StandsAt (text piece : List Char) (start stop : Nat) : Prop :=
  ∃ before after, text = before ++ piece ++ after ∧ width before = start ∧
    width (before ++ piece) = stop

theorem standsAt_append (before piece after : List Char) :
    StandsAt (before ++ piece ++ after) piece (width before) (width before + width piece) :=
  ⟨before, after, rfl, rfl, width_append before piece⟩

theorem StandsAt.stop_eq (h : StandsAt text piece start stop) : stop = start + width piece := by
  obtain ⟨before, after, -, rfl, rfl⟩ := h
  exact width_append before piece

theorem StandsAt.stop_le (h : StandsAt text piece start stop) : stop ≤ width text := by
  obtain ⟨before, after, rfl, -, rfl⟩ := h
  rw [width_append (before ++ piece) after]; omega

theorem StandsAt.slice_eq (h : StandsAt text piece start stop) : slice text start stop = piece := by
  obtain ⟨before, after, rfl, hb, hp⟩ := h
  exact slice_append after hb hp

theorem StandsAt.isBoundary_start (h : StandsAt text piece start stop) :
    isBoundary text start = true := by
  obtain ⟨before, after, rfl, hb, -⟩ := h
  exact isBoundary_iff.2 ⟨before, piece ++ after, List.append_assoc .., hb⟩

theorem StandsAt.isBoundary_stop (h : StandsAt text piece start stop) :
    isBoundary text stop = true := by
  obtain ⟨before, after, rfl, -, hp⟩ := h
  exact isBoundary_iff.2 ⟨before ++ piece, after, rfl, hp⟩

/-- **What stands in a piece stands in the text.** -/
theorem StandsAt.within (h : StandsAt text piece start stop) (hp : StandsAt piece part m n) :
    StandsAt text part (start + m) (start + n) := by
  obtain ⟨before, after, rfl, rfl, -⟩ := h
  obtain ⟨before', after', rfl, rfl, rfl⟩ := hp
  refine ⟨before ++ before', after' ++ after, by simp only [List.append_assoc], ?_, ?_⟩
  · exact width_append ..
  · simp only [width_append]; omega

@[simp] theorem width_reverse (cs : List Char) : width cs.reverse = width cs := by
  induction cs with
  | nil => rfl
  | cons c cs ih =>
    rw [List.reverse_cons, width_append, ih, width_cons, width_cons, width_nil]
    omega

theorem width_take_add (cs : List Char) (m n : Nat) :
    width (cs.take (m + n)) = width (cs.take m) + width ((cs.drop m).take n) := by
  rw [List.take_add, width_append]

theorem width_take_lt (h : m < n) (hn : n ≤ cs.length) :
    width (cs.take m) < width (cs.take n) := by
  have hadd := width_take_add cs m (n - m)
  rw [Nat.add_sub_cancel' (Nat.le_of_lt h)] at hadd
  have hne : (cs.drop m).take (n - m) ≠ [] := by
    rw [← List.length_pos_iff, List.length_take, List.length_drop]; omega
  have := Nat.pos_of_ne_zero (mt width_eq_zero.1 hne)
  omega

/-- Pieces in text order, each of which ends where the next one begins or before: two of them are
one, or share no bytes. -/
theorem eq_or_apart_of_pairwise {α : Type*} {start stop : α → Nat} {pieces : List α} {p q : α}
    (h : pieces.Pairwise fun p q => stop p ≤ start q) (hp : p ∈ pieces) (hq : q ∈ pieces) :
    p = q ∨ stop p ≤ start q ∨ stop q ≤ start p := by
  let R := fun p q => stop p ≤ start q ∨ stop q ≤ start p
  have hsymm : Std.Symm R := ⟨fun _ _ h => h.symm⟩
  have hpair : pieces.Pairwise R := h.imp fun h => .inl h
  by_cases he : p = q
  · exact .inl he
  · exact .inr (hpair.forall hp hq he)

/-! ## Scanning -/

/-- Of two pieces that a text begins with, the one with fewer bytes begins the other one. -/
theorem exists_append_of_width_le {ds : List Char} (h : as ++ cs = bs ++ ds)
    (hle : width as ≤ width bs) : ∃ gap, bs = as ++ gap ∧ cs = gap ++ ds := by
  rcases List.append_eq_append_iff.1 h with h | ⟨gap, rfl, rfl⟩
  · exact h
  · rw [width_append] at hle
    obtain rfl : gap = [] := width_eq_zero.1 (by omega)
    exact ⟨[], by simp⟩

theorem stripStart?_eq_some_iff : stripStart? as cs = some bs ↔ cs = as ++ bs := by
  induction as generalizing cs with
  | nil => simp [stripStart?, eq_comm]
  | cons a as ih =>
    cases cs with
    | nil => simp [stripStart?]
    | cons c cs =>
      rw [stripStart?, List.cons_append, List.cons.injEq]
      split
      · rename_i hac; rw [ih]; simp [hac]
      · rename_i hac; simp [Ne.symm hac]

section Scan

variable {α : Type*} {find : List Char → List Char → Option (α × Nat)} {before : List Char}
variable {c : Char} {i k skip : Nat} {a : α}

theorem scan_nil_of_some (h : find before [] = some (a, k)) :
    scan find before 0 [] = [(width before, a)] := by
  simp only [scan, h]

theorem scan_nil_of_none (h : find before [] = none) : scan find before 0 [] = [] := by
  simp only [scan, h]

theorem scan_skip_nil (find : List Char → List Char → Option (α × Nat)) (before : List Char)
    (k : Nat) : scan find before (k + 1) [] = [] := rfl

theorem scan_of_some (h : find before (c :: cs) = some (a, k)) :
    scan find before 0 (c :: cs) = (width before, a) :: scan find (c :: before) (k - 1) cs := by
  simp only [scan, h]

theorem scan_of_none (h : find before (c :: cs) = none) :
    scan find before 0 (c :: cs) = scan find (c :: before) 0 cs := by
  simp only [scan, h]

/-- **What a scan reports has been found.** The scan has `before` behind it. -/
theorem mem_scan (h : (i, a) ∈ scan find before skip cs) :
    ∃ pre post k, cs = pre ++ post ∧ i = width before + width pre ∧
      find (pre.reverse ++ before) post = some (a, k) := by
  induction cs generalizing before skip with
  | nil =>
    cases skip with
    | succ k => rw [scan_skip_nil] at h; cases h
    | zero =>
      cases hf : find before [] with
      | none => rw [scan_nil_of_none hf] at h; cases h
      | some hit =>
        rw [scan_nil_of_some hf] at h
        cases List.mem_singleton.1 h
        exact ⟨[], [], _, rfl, rfl, hf⟩
  | cons c cs ih =>
    -- what is found further on has `c` before it as well
    have hlater : ∀ {skip}, (i, a) ∈ scan find (c :: before) skip cs →
        ∃ pre post k, c :: cs = pre ++ post ∧ i = width before + width pre ∧
          find (pre.reverse ++ before) post = some (a, k) := by
      intro skip h
      obtain ⟨pre, post, k, rfl, rfl, hf⟩ := ih h
      refine ⟨c :: pre, post, k, rfl, ?_, ?_⟩
      · rw [width_cons, width_cons]; omega
      · rwa [List.reverse_cons, List.append_assoc]
    cases skip with
    | succ k => exact hlater h
    | zero =>
      cases hf : find before (c :: cs) with
      | none => rw [scan_of_none hf] at h; exact hlater h
      | some hit =>
        rw [scan_of_some hf] at h
        rcases List.mem_cons.1 h with he | h
        · cases he
          exact ⟨[], c :: cs, _, rfl, rfl, hf⟩
        · exact hlater h

/-- A scan of a whole text, from its first character on. -/
theorem mem_scan_nil (h : (i, a) ∈ scan find [] 0 text) :
    ∃ pre post k, text = pre ++ post ∧ width pre = i ∧ find pre.reverse post = some (a, k) := by
  obtain ⟨pre, post, k, rfl, rfl, hf⟩ := mem_scan h
  exact ⟨pre, post, k, rfl, by simp, by simpa using hf⟩

/-- **A scan reports what is found behind its earlier finds.** The scan has `before` behind it, and
nothing that is found ahead of the place takes characters from the place on. -/
theorem mem_scan_of_find {pre post : List Char} (hfind : find (pre.reverse ++ before) post = some (a, k))
    (hclear : ∀ front rest b n, pre = front ++ rest → rest ≠ [] →
      find (front.reverse ++ before) (rest ++ post) = some (b, n) → n ≤ rest.length)
    (hskip : skip ≤ pre.length) :
    (width before + width pre, a) ∈ scan find before skip (pre ++ post) := by
  induction pre generalizing before skip with
  | nil =>
    obtain rfl : skip = 0 := Nat.le_zero.1 hskip
    rw [List.reverse_nil, List.nil_append] at hfind
    cases post with
    | nil => rw [List.append_nil, scan_nil_of_some hfind]; exact List.mem_singleton.2 rfl
    | cons c post => rw [List.nil_append, scan_of_some hfind]; exact List.mem_cons_self
  | cons c pre ih =>
    -- further on the scan has `c` behind it as well
    have hlater : ∀ {skip}, skip ≤ pre.length →
        (width before + width (c :: pre), a) ∈ scan find (c :: before) skip (pre ++ post) := by
      intro skip hle
      rw [width_cons, ← Nat.add_assoc, Nat.add_comm (width before), ← width_cons]
      refine ih ?_ (fun front rest b n hpre hne hf => ?_) hle
      · rwa [List.reverse_cons, List.append_assoc] at hfind
      · refine hclear (c :: front) rest b n (by rw [hpre, List.cons_append]) hne ?_
        rwa [List.reverse_cons, List.append_assoc]
    rw [List.cons_append]
    cases skip with
    | succ k => exact hlater (Nat.le_of_succ_le_succ hskip)
    | zero =>
      cases hf : find before (c :: (pre ++ post)) with
      | none => rw [scan_of_none hf]; exact hlater (Nat.zero_le _)
      | some hit =>
        have hn := hclear [] (c :: pre) hit.1 hit.2 rfl (List.cons_ne_nil c pre) hf
        rw [scan_of_some hf]
        refine List.mem_cons_of_mem _ (hlater ?_)
        rw [List.length_cons] at hn
        omega

/-- The same for a scan of a whole text. -/
theorem mem_scan_nil_of_find {pre post : List Char} (hfind : find pre.reverse post = some (a, k))
    (hclear : ∀ front rest b n, pre = front ++ rest → rest ≠ [] →
      find front.reverse (rest ++ post) = some (b, n) → n ≤ rest.length) :
    (width pre, a) ∈ scan find [] 0 (pre ++ post) := by
  have h : (width [] + width pre, a) ∈ scan find [] 0 (pre ++ post) :=
    mem_scan_of_find (by rwa [List.append_nil])
      (fun front rest b n hpre hne hf => hclear front rest b n hpre hne (by rwa [List.append_nil] at hf))
      (Nat.zero_le _)
  rwa [width_nil, Nat.zero_add] at h

theorem le_of_mem_scan (h : (i, a) ∈ scan find before skip cs) :
    width before + width (cs.take skip) ≤ i := by
  induction cs generalizing before skip with
  | nil =>
    obtain ⟨pre, post, k, -, rfl, -⟩ := mem_scan h
    rw [List.take_nil, width_nil]; omega
  | cons c cs ih =>
    cases skip with
    | succ k =>
      have := ih h
      rw [List.take_succ_cons, width_cons]
      rw [width_cons] at this
      omega
    | zero =>
      obtain ⟨pre, post, k, -, rfl, -⟩ := mem_scan h
      rw [List.take_zero, width_nil]; omega

/-- **What a scan reports begins before what it reports later, and does not reach into that**, if what
is found at a place has no more bytes than the characters that it takes. -/
theorem scan_pairwise {extent : α → Nat}
    (h : ∀ before cs a k, find before cs = some (a, k) → extent a ≤ width (cs.take k))
    (before cs : List Char) (skip : Nat) :
    (scan find before skip cs).Pairwise fun p q => p.1 < q.1 ∧ p.1 + extent p.2 ≤ q.1 := by
  induction cs generalizing before skip with
  | nil =>
    cases skip with
    | succ k => rw [scan_skip_nil]; exact .nil
    | zero =>
      cases hf : find before [] with
      | none => rw [scan_nil_of_none hf]; exact .nil
      | some hit => rw [scan_nil_of_some hf]; exact List.pairwise_singleton ..
  | cons c cs ih =>
    cases skip with
    | succ k => exact ih (c :: before) k
    | zero =>
      cases hf : find before (c :: cs) with
      | none => rw [scan_of_none hf]; exact ih (c :: before) 0
      | some hit =>
        obtain ⟨a, k⟩ := hit
        rw [scan_of_some hf]
        refine List.pairwise_cons.2 ⟨fun q hq => ?_, ih (c :: before) (k - 1)⟩
        -- the later ones begin behind `c` and the characters that are skipped
        have hext := h before (c :: cs) a k hf
        have hlow := le_of_mem_scan (i := q.1) (a := q.2) hq
        have hpos := c.utf8Size_pos
        rw [width_cons] at hlow
        cases k with
        | zero => rw [List.take_zero, width_nil] at hext; dsimp only; omega
        | succ k =>
          rw [List.take_succ_cons, width_cons] at hext
          rw [Nat.add_sub_cancel] at hlow
          dsimp only; omega

/-- **A scan starts anew behind a character** that nothing it finds has in it. -/
theorem mem_scan_behind {inside : Char → Bool} {b : Char} {x : Nat × α}
    (hfind : ∀ before cs a k, find before cs = some (a, k) →
      0 < k ∧ ∀ c ∈ cs.take k, inside c = true)
    (hb : inside b = false) (pre before : List Char) (skip : Nat)
    (hskip : ∀ c ∈ (pre ++ b :: cs).take skip, inside c = true)
    (h : x ∈ scan find (b :: (pre.reverse ++ before)) 0 cs) :
    x ∈ scan find before skip (pre ++ b :: cs) := by
  induction pre generalizing before skip with
  | nil =>
    -- neither the last find nor a new one takes the character
    cases skip with
    | succ k =>
      have := hskip b (by simp)
      rw [hb] at this
      cases this
    | zero =>
      rw [List.nil_append]
      cases hf : find before (b :: cs) with
      | none => rw [scan_of_none hf]; exact h
      | some hit =>
        obtain ⟨a, k⟩ := hit
        obtain ⟨hpos, htake⟩ := hfind before (b :: cs) a k hf
        obtain ⟨k, rfl⟩ : ∃ j, k = j + 1 := ⟨k - 1, by omega⟩
        have := htake b (by simp)
        rw [hb] at this
        cases this
  | cons c pre ih =>
    have h' : x ∈ scan find (b :: (pre.reverse ++ (c :: before))) 0 cs := by
      rwa [List.reverse_cons, List.append_assoc] at h
    rw [List.cons_append]
    cases skip with
    | succ k =>
      exact ih (c :: before) k (fun y hy => hskip y (List.mem_cons_of_mem c hy)) h'
    | zero =>
      cases hf : find before (c :: (pre ++ b :: cs)) with
      | none =>
        rw [scan_of_none hf]
        exact ih (c :: before) 0 (by simp) h'
      | some hit =>
        obtain ⟨a, k⟩ := hit
        obtain ⟨hpos, htake⟩ := hfind before _ a k hf
        rw [scan_of_some hf]
        obtain ⟨k, rfl⟩ : ∃ j, k = j + 1 := ⟨k - 1, by omega⟩
        exact List.mem_cons_of_mem _
          (ih (c :: before) k (fun y hy => htake y (List.mem_cons_of_mem c hy)) h')

/-- **A scan of a piece by itself reports what the scan of the whole reports there**, if at each
place of the piece the same is found with and without what is around the piece. -/
theorem mem_scan_widen {back rest : List Char}
    (hagree : ∀ t u, piece = t ++ u → u ≠ [] →
      find t.reverse u = find (t.reverse ++ back) (u ++ rest))
    (hend : find piece.reverse [] = none) (t : List Char) (skip : Nat) (hcs : piece = t ++ cs)
    (h : (i, a) ∈ scan find t.reverse skip cs) :
    (i + width back, a) ∈ scan find (t.reverse ++ back) skip (cs ++ rest) := by
  induction cs generalizing t skip with
  | nil =>
    rw [List.append_nil] at hcs
    subst hcs
    cases skip with
    | succ k => rw [scan_skip_nil] at h; cases h
    | zero => rw [scan_nil_of_none hend] at h; cases h
  | cons c cs ih =>
    have hnext : piece = (t ++ [c]) ++ cs := by rw [hcs, List.append_assoc]; rfl
    have hlater : ∀ k, (i, a) ∈ scan find (c :: t.reverse) k cs →
        (i + width back, a) ∈ scan find (c :: (t.reverse ++ back)) k (cs ++ rest) := by
      intro k hk
      have := ih (t ++ [c]) k hnext (by rwa [List.reverse_append])
      rwa [List.reverse_append] at this
    cases skip with
    | succ k => exact hlater k h
    | zero =>
      have hf := hagree t (c :: cs) hcs (List.cons_ne_nil c cs)
      cases hin : find t.reverse (c :: cs) with
      | none =>
        rw [scan_of_none hin] at h
        rw [List.cons_append, scan_of_none (hf ▸ hin)]
        exact hlater 0 h
      | some hit =>
        rw [scan_of_some hin] at h
        rw [List.cons_append, scan_of_some (hf ▸ hin)]
        rcases List.mem_cons.1 h with he | h
        · cases he
          rw [width_append]
          exact List.mem_cons_self
        · exact List.mem_cons_of_mem _ (hlater _ h)

end Scan

end PhpRename.Text
