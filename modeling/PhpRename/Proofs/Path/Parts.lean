import PhpRename.Path.Normal

/-!
# What a plain spelling names

A path is known by its parts, and keeps a spelling besides. The plain spelling of a normal list of
parts names these parts again, so normal paths that are equal are spelled the same.

* `steps`, `parts_join_of_relative`: what a text adds to the directory in which it is read.
* `parts_join`: a plain part adds itself to what a path names.
* `parts_ofParts`: the plain spelling of a normal list of parts names these parts.
* `isPlain_absoluteFrom`: paths that are read from a working directory are spelled plainly.
* `compare_eq_iff`: the order of paths calls those equal that name the same.
-/

namespace PhpRename.Path

variable {p q : Path} {part : Part} {ps : List Part} {cs s : List Char}

theorem beq_iff : (p == q) = true ↔ p.parts = q.parts :=
  beq_iff_eq (α := List Part)

/-- Paths that equal a third one are equal. -/
theorem beq_of_beq_of_beq {r : Path} (hp : (p == r) = true) (hq : (q == r) = true) :
    (p == q) = true :=
  beq_iff.2 ((beq_iff.1 hp).trans (beq_iff.1 hq).symm)

/-! ## Segments -/

theorem segments_ne_nil (cs : List Char) : segments cs ≠ [] := by
  cases cs with
  | nil => exact List.cons_ne_nil _ _
  | cons c cs =>
    rw [segments]
    split
    · exact List.cons_ne_nil _ _
    · split <;> exact List.cons_ne_nil _ _

theorem segments_slash (cs : List Char) : segments ('/' :: cs) = [] :: segments cs := rfl

theorem segments_cons_of_ne {c : Char} (hc : c ≠ '/') {ss : List (List Char)}
    (h : segments cs = s :: ss) : segments (c :: cs) = (c :: s) :: ss := by
  rw [segments, if_neg hc, h]

theorem segments_append_slash (as bs : List Char) :
    segments (as ++ '/' :: bs) = segments as ++ segments bs := by
  induction as with
  | nil => rfl
  | cons c as ih =>
    by_cases hc : c = '/'
    · rw [hc, List.cons_append, segments_slash, segments_slash, ih, List.cons_append]
    · obtain ⟨s, ss, hs⟩ := List.exists_cons_of_ne_nil (segments_ne_nil as)
      rw [hs, List.cons_append] at ih
      rw [List.cons_append, segments_cons_of_ne hc ih, segments_cons_of_ne hc hs, List.cons_append]

theorem segments_of_not_mem (h : '/' ∉ cs) : segments cs = [cs] := by
  induction cs with
  | nil => rfl
  | cons c cs ih =>
    rw [List.mem_cons, not_or] at h
    exact segments_cons_of_ne (Ne.symm h.1) (ih h.2)

theorem not_mem_of_mem_segments (h : s ∈ segments cs) : '/' ∉ s := by
  induction cs generalizing s with
  | nil =>
    cases List.mem_singleton.1 h
    exact List.not_mem_nil
  | cons c cs ih =>
    by_cases hc : c = '/'
    · rw [hc, segments_slash] at h
      rcases List.mem_cons.1 h with rfl | h
      · exact List.not_mem_nil
      · exact ih h
    · obtain ⟨t, ts, ht⟩ := List.exists_cons_of_ne_nil (segments_ne_nil cs)
      rw [segments_cons_of_ne hc ht] at h
      rw [ht] at ih
      rcases List.mem_cons.1 h with rfl | h
      · rw [List.mem_cons, not_or]
        exact ⟨Ne.symm hc, ih List.mem_cons_self⟩
      · exact ih (List.mem_cons_of_mem _ h)

theorem segments_ne_singleton (h : cs ≠ []) : segments cs ≠ [[]] := by
  obtain ⟨c, cs, rfl⟩ := List.exists_cons_of_ne_nil h
  by_cases hc : c = '/'
  · rw [hc, segments_slash]
    exact fun he => segments_ne_nil cs (List.cons.inj he).2
  · obtain ⟨s, ss, hs⟩ := List.exists_cons_of_ne_nil (segments_ne_nil cs)
    rw [segments_cons_of_ne hc hs]
    exact fun he => List.cons_ne_nil c s (List.cons.inj he).1

/-! ## Plain parts -/

/-- The part is a `..` or a name that can stand between slashes. -/
def Part.Plain : Part → Prop
  | .up => True
  | .name text => '/' ∉ text.toList ∧ text.toList ≠ [] ∧ text.toList ≠ ['.'] ∧
      text.toList ≠ ['.', '.']
  | _ => False

theorem Part.Plain.not_mem (h : part.Plain) : '/' ∉ part.text.toList := by
  cases part with
  | up => decide
  | name text => exact h.1
  | root => exact h.elim
  | here => exact h.elim

theorem Part.Plain.text_ne (h : part.Plain) : part.text.toList ≠ [] ∧ part.text.toList ≠ ['.'] := by
  cases part with
  | up => decide
  | name text => exact ⟨h.2.1, h.2.2.1⟩
  | root => exact h.elim
  | here => exact h.elim

theorem Part.Plain.ofSegment?_text (h : part.Plain) : ofSegment? part.text.toList = some part := by
  have hne := h.text_ne
  rw [ofSegment?, if_neg (by rw [not_or]; exact hne)]
  cases part with
  | up => rfl
  | name text =>
    rw [Part.text, if_neg h.2.2.2, String.ofList_toList]
  | root => exact h.elim
  | here => exact h.elim

theorem Part.plain_of_ofSegment? (hs : '/' ∉ s) (h : ofSegment? s = some part) : part.Plain := by
  rw [ofSegment?] at h
  split at h
  · cases h
  rename_i hne
  rw [not_or] at hne
  split at h
  · cases h; exact True.intro
  · rename_i hup
    cases h
    rw [Part.Plain, String.toList_ofList]
    exact ⟨hs, hne.1, hne.2, hup⟩

/-! ## Steps -/

/-- The steps down and up that a text takes from the directory in which it is read. -/
def steps (cs : List Char) : List Part :=
  (segments cs).filterMap Part.ofSegment?

theorem plain_of_mem_steps (h : part ∈ steps cs) : part.Plain := by
  obtain ⟨s, hs, he⟩ := List.mem_filterMap.1 h
  exact Part.plain_of_ofSegment? (not_mem_of_mem_segments hs) he

theorem steps_append_slash (as bs : List Char) : steps (as ++ '/' :: bs) = steps as ++ steps bs := by
  rw [steps, segments_append_slash, List.filterMap_append]
  rfl

theorem steps_slash (cs : List Char) : steps ('/' :: cs) = steps cs :=
  steps_append_slash [] cs

/-- A plain part is one step. -/
theorem steps_of_plain (h : part.Plain) : steps part.text.toList = [part] := by
  rw [steps, segments_of_not_mem h.not_mem, List.filterMap_cons, h.ofSegment?_text]
  rfl

/-- An absolute path takes its steps from the root. -/
theorem parts_of_isAbsolute (h : p.isAbsolute = true) :
    p.parts = .root :: steps p.spelling.toList := by
  rw [isAbsolute, decide_eq_true_eq, List.head?_eq_some_iff] at h
  obtain ⟨cs, hcs⟩ := h
  rw [parts, hcs, segments_slash, steps_slash, partsOfSegments, if_pos rfl,
    if_neg (segments_ne_nil cs)]
  rfl

/-- Of a relative path only a `.` in front is no step. -/
theorem parts_of_relative (h : p.isAbsolute = false) :
    p.parts = steps p.spelling.toList ∨ p.parts = .here :: steps p.spelling.toList := by
  rw [isAbsolute, decide_eq_false_iff_not] at h
  rw [parts, steps]
  cases hcs : p.spelling.toList with
  | nil => exact .inl rfl
  | cons c cs =>
    have hc : c ≠ '/' := fun hc => h (by rw [hcs, hc]; rfl)
    obtain ⟨s, ss, hs⟩ := List.exists_cons_of_ne_nil (segments_ne_nil cs)
    rw [segments_cons_of_ne hc hs, partsOfSegments, if_neg (List.cons_ne_nil c s)]
    by_cases hdot : c :: s = ['.']
    · rw [if_pos hdot, List.filterMap_cons_none (by rw [hdot]; rfl)]
      exact .inr rfl
    · rw [if_neg hdot]
      cases hpart : Part.ofSegment? (c :: s) with
      | none => rw [List.filterMap_cons_none hpart]; exact .inl rfl
      | some part => rw [List.filterMap_cons_some hpart]; exact .inl rfl

/-- Names that a path names are plain. -/
theorem plain_of_mem_parts {text : String} (h : .name text ∈ p.parts) : (Part.name text).Plain := by
  have hsteps : .name text ∈ steps p.spelling.toList := by
    cases habs : p.isAbsolute with
    | true => simpa [parts_of_isAbsolute habs] using h
    | false => rcases parts_of_relative habs with hp | hp <;> simpa [hp] using h
  exact plain_of_mem_steps hsteps

/-- A path is absolute if and only if the root is its first part. -/
theorem isAbsolute_iff : p.isAbsolute = true ↔ p.parts.head? = some .root := by
  constructor
  · intro h
    rw [parts_of_isAbsolute h]
    rfl
  · intro hroot
    cases habs : p.isAbsolute with
    | true => rfl
    | false =>
      rcases parts_of_relative habs with hp | hp <;> rw [hp] at hroot
      · exact (plain_of_mem_steps (List.mem_of_mem_head? hroot)).elim
      · cases hroot

/-- Behind the first piece, each piece adds the part that it stands for. -/
theorem partsOfSegments_append {ss ts : List (List Char)} (hs : ss ≠ []) (ht : ts ≠ []) :
    partsOfSegments (ss ++ ts) =
      partsOfSegments (ss ++ [[]]) ++ ts.filterMap Part.ofSegment? := by
  obtain ⟨first, rest, rfl⟩ := List.exists_cons_of_ne_nil hs
  have hnil : ([[]].filterMap Part.ofSegment?) = [] := rfl
  simp only [List.cons_append, partsOfSegments, List.filterMap_append, hnil,
    List.append_eq_nil_iff, List.cons_ne_nil, ht, and_false, if_false, List.append_nil,
    List.append_assoc]

/-! ## Plain spellings -/

/-- A slash at the end of a path that is not empty adds nothing. -/
theorem partsOfSegments_concat_nil {ss : List (List Char)} (h : ss ≠ []) (hne : ss ≠ [[]]) :
    partsOfSegments (ss ++ [[]]) = partsOfSegments ss := by
  obtain ⟨first, rest, rfl⟩ := List.exists_cons_of_ne_nil h
  have hnil : ([[]].filterMap Part.ofSegment?) = [] := rfl
  simp only [List.cons_append, partsOfSegments, List.filterMap_append, hnil, List.append_nil,
    List.append_eq_nil_iff, List.cons_ne_nil, and_false, if_false]
  by_cases hf : first = []
  · have hr : rest ≠ [] := fun hr => hne (by rw [hf, hr])
    rw [if_pos hf, if_pos hf, if_neg hr]
  · rw [if_neg hf, if_neg hf]

/-- **A path that is read from a directory adds its steps** to what that names. -/
theorem parts_join_of_relative (hp : p.spelling ≠ "") (hq : q.isAbsolute = false) :
    (p.join q).parts = p.parts ++ steps q.spelling.toList := by
  -- behind a slash the pieces are steps
  have hbehind : ∀ as : List Char, partsOfSegments (segments (as ++ '/' :: q.spelling.toList)) =
      partsOfSegments (segments (as ++ ['/'])) ++ steps q.spelling.toList := by
    intro as
    rw [segments_append_slash, segments_append_slash,
      partsOfSegments_append (segments_ne_nil as) (segments_ne_nil _)]
    rfl
  rw [join, hq, if_neg Bool.false_ne_true]
  by_cases hlast : p.spelling.toList.getLast? = some '/'
  · obtain ⟨as, has⟩ := List.getLast?_eq_some_iff.1 hlast
    rw [if_pos (.inr hlast), parts, parts, String.toList_append, has, List.append_assoc]
    exact hbehind as
  · have hne : segments p.spelling.toList ≠ [[]] :=
      segments_ne_singleton fun hnil => hp (String.toList_eq_nil_iff.1 hnil)
    rw [if_neg (by rw [not_or]; exact ⟨hp, hlast⟩), parts, parts, String.toList_append,
      String.toList_append, List.append_assoc]
    rw [← partsOfSegments_concat_nil (segments_ne_nil _) hne]
    have := hbehind p.spelling.toList
    rw [segments_append_slash p.spelling.toList []] at this
    exact this

/-- **A plain part adds itself to what a path names.** -/
theorem parts_join (p : Path) (h : part.Plain) :
    (p.join ⟨part.text⟩).parts = p.parts ++ [part] := by
  have habs : isAbsolute ⟨part.text⟩ = false := by
    rw [isAbsolute, decide_eq_false_iff_not]
    exact fun hhead => h.not_mem (List.mem_of_mem_head? hhead)
  by_cases hempty : p.spelling = ""
  · obtain ⟨hne, hdot⟩ := h.text_ne
    rw [join, habs, if_neg Bool.false_ne_true, if_pos (.inl hempty), parts, parts, hempty,
      String.empty_append, segments_of_not_mem h.not_mem, partsOfSegments, if_neg hne, if_neg hdot,
      h.ofSegment?_text]
    rfl
  · rw [parts_join_of_relative hempty habs, steps_of_plain h]

theorem parts_foldl_join (h : ∀ part ∈ ps, part.Plain) (p : Path) :
    (ps.foldl (fun p part => p.join ⟨part.text⟩) p).parts = p.parts ++ ps := by
  induction ps generalizing p with
  | nil => rw [List.append_nil]; rfl
  | cons part ps ih =>
    rw [List.foldl_cons, ih fun x hx => h x (List.mem_cons_of_mem _ hx),
      parts_join p (h part List.mem_cons_self), List.append_assoc]
    rfl

/-- Plain parts, maybe behind the root. -/
def Normal (ps : List Part) : Prop :=
  ∃ body, (∀ part ∈ body, part.Plain) ∧ (ps = body ∨ ps = .root :: body)

/-- **The plain spelling of a normal list of parts names these parts.** -/
theorem parts_ofParts (h : Normal ps) : (ofParts ps).parts = ps := by
  obtain ⟨body, hplain, rfl | rfl⟩ := h
  · rw [ofParts, parts_foldl_join hplain]; rfl
  · rw [ofParts, List.foldl_cons, parts_foldl_join hplain]; rfl

/-! ## Normal paths -/

theorem normal_reverse_iff {done : List Part} : Normal done.reverse ↔
    ∃ body, (∀ part ∈ body, part.Plain) ∧ (done = body ∨ done = body ++ [.root]) := by
  constructor
  · rintro ⟨body, hplain, h⟩
    refine ⟨body.reverse, fun part hpart => hplain part (List.mem_reverse.1 hpart), ?_⟩
    rcases h with h | h
    · left; rw [← h, List.reverse_reverse]
    · right; rw [← List.reverse_cons, ← h, List.reverse_reverse]
  · rintro ⟨body, hplain, h⟩
    refine ⟨body.reverse, fun part hpart => hplain part (List.mem_reverse.1 hpart), ?_⟩
    rcases h with rfl | rfl
    · exact .inl rfl
    · right; rw [List.reverse_append]; rfl

/-- Climbing keeps a normal list normal. -/
theorem normal_climb {done : List Part} (h : Normal done.reverse)
    (hpart : ∀ text, part = .name text → part.Plain) : Normal (climb done part).reverse := by
  obtain ⟨body, hplain, hdone⟩ := normal_reverse_iff.1 h
  have hcons : ∀ x : Part, x.Plain → Normal (x :: done).reverse := by
    intro x hx
    refine normal_reverse_iff.2 ⟨x :: body, List.forall_mem_cons.2 ⟨hx, hplain⟩, ?_⟩
    rcases hdone with rfl | rfl
    · exact .inl rfl
    · exact .inr rfl
  cases part with
  | here => exact h
  | root => exact normal_reverse_iff.2 ⟨[], by simp, .inr rfl⟩
  | name text => exact hcons _ (hpart text rfl)
  | up =>
    by_cases hname : ∃ text rest, done = .name text :: rest
    · -- the last part is a name, and is taken back
      obtain ⟨text, rest, rfl⟩ := hname
      show Normal rest.reverse
      cases body with
      | nil => rcases hdone with hd | hd <;> cases hd
      | cons last body =>
        refine normal_reverse_iff.2 ⟨body, fun x hx => hplain x (List.mem_cons_of_mem _ hx), ?_⟩
        rcases hdone with hd | hd
        · exact .inl (List.cons.inj hd).2
        · exact .inr (List.cons.inj hd).2
    · rw [climb]
      · split
        · exact h
        · exact hcons .up True.intro
      · exact fun text rest he => hname ⟨text, rest, he⟩

theorem normal_normalParts (h : ∀ text, .name text ∈ ps → (Part.name text).Plain) :
    Normal (normalParts ps) := by
  have hfold : ∀ done : List Part, Normal done.reverse → Normal (ps.foldl climb done).reverse := by
    induction ps with
    | nil => exact fun done hd => hd
    | cons part ps ih =>
      intro done hd
      refine ih (fun text ht => h text (List.mem_cons_of_mem _ ht)) _ (normal_climb hd ?_)
      rintro text rfl
      exact h text List.mem_cons_self
  exact hfold [] ⟨[], by simp, .inl rfl⟩

/-- The path is spelled plainly. -/
def IsPlain (p : Path) : Prop :=
  ofParts p.parts = p

theorem IsPlain.eq_of_beq (hp : p.IsPlain) (hq : q.IsPlain) (h : (p == q) = true) : p = q := by
  rw [← hp, ← hq, beq_iff.1 h]

theorem isPlain_normalize (p : Path) : p.normalize.IsPlain := by
  have hn : Normal (normalParts p.parts) := normal_normalParts fun text => plain_of_mem_parts
  rw [IsPlain, normalize, parts_ofParts hn]

/-- **Paths that are read from a working directory are spelled plainly.** -/
theorem isPlain_absoluteFrom (dir p : Path) : (absoluteFrom dir p).IsPlain := by
  rw [absoluteFrom]
  split
  · exact isPlain_normalize p
  · exact isPlain_normalize (dir.join p)

/-! ## Order -/

instance : Std.LawfulEqOrd Part where
  compare_self {a} := by
    cases a with
    | name text => exact Std.compare_self (a := text)
    | root => rfl
    | here => rfl
    | up => rfl
  eq_of_compare {a b} h := by
    -- parts of two sorts are never equal, and of the sorts only names have parts of their own
    cases a <;> cases b
    case name.name text text' => exact congrArg Part.name (Std.LawfulEqOrd.eq_of_compare h)
    all_goals first | rfl | cases h

instance : Std.TransOrd Part where
  eq_swap {a b} := by
    cases a <;> cases b
    case name.name text text' => exact @Std.OrientedCmp.eq_swap String compare _ text text'
    all_goals rfl
  isLE_trans {a b c} hab hbc := by
    cases a <;> cases b <;> cases c
    case name.name.name text text' text'' =>
      exact @Std.TransCmp.isLE_trans String compare _ text text' text'' hab hbc
    all_goals first | rfl | exact absurd hab Bool.false_ne_true | exact absurd hbc Bool.false_ne_true

instance : Std.TransOrd Path where
  eq_swap {p q} := @Std.OrientedCmp.eq_swap (List Part) compare _ p.parts q.parts
  isLE_trans {p q r} := @Std.TransCmp.isLE_trans (List Part) compare _ p.parts q.parts r.parts

theorem compare_eq_iff : compare p q = .eq ↔ (p == q) = true := by
  rw [beq_iff]
  exact Std.compare_eq_eq_iff_eq (α := List Part)

end PhpRename.Path
