import Mathlib.Data.List.Induction
import Mathlib.Data.List.Pairwise
import PhpRename.Edit.Basic

/-!
# Merging edits

Edits that make the same change are kept once. What is kept was proposed, by somebody and with
this confidence.

* `Distinct`: the edits of a list make different changes; merging keeps them so.
* `ComesFrom`: the same change was proposed with the same confidence; merging makes up nothing.
* `merged`: a whole list merged. `mem_merged`: what is kept of a change is where it was proposed and
  the strongest confidence; `merged_perm`: the order of the list does not matter for that.
-/

namespace PhpRename.Edit

variable {e f x : Edit} {edits : List Edit} {P : Edit → Prop}

theorem sameChange_iff : e.sameChange f = true ↔
    e.offset = f.offset ∧ e.length = f.length ∧ e.replacement = f.replacement := by
  simp [sameChange, and_assoc]

theorem sameChange_comm (e f : Edit) : e.sameChange f = f.sameChange e := by
  rw [Bool.eq_iff_iff, sameChange_iff, sameChange_iff, eq_comm, @eq_comm _ e.length,
    @eq_comm _ e.replacement]

theorem sameChange_self (e : Edit) : e.sameChange e = true :=
  sameChange_iff.2 ⟨rfl, rfl, rfl⟩

theorem sameChange_symm (h : e.sameChange f = true) : f.sameChange e = true := by
  rw [sameChange_comm]; exact h

theorem sameChange_trans (hef : e.sameChange f = true) (hfx : f.sameChange x = true) :
    e.sameChange x = true := by
  rw [sameChange_iff] at *
  obtain ⟨ho, hl, hr⟩ := hef
  rw [ho, hl, hr]; exact hfx

/-- Edits that make the same change as competing ones compete. -/
theorem overlaps_congr {e' f' : Edit} (he : e.sameChange e' = true) (hf : f.sameChange f' = true) :
    e.overlaps f = e'.overlaps f' := by
  obtain ⟨heo, hel, -⟩ := sameChange_iff.1 he
  obtain ⟨hfo, hfl, -⟩ := sameChange_iff.1 hf
  unfold overlaps overlapsBy stop
  rw [heo, hel, hfo, hfl]

/-- The edits of the list make different changes. -/
def Distinct (edits : List Edit) : Prop :=
  edits.Pairwise fun e f => e.sameChange f = false

/-- An edit with the property makes the same change, with the same confidence. -/
def ComesFrom (P : Edit → Prop) (x : Edit) : Prop :=
  ∃ e, P e ∧ e.sameChange x = true ∧ e.confidence = x.confidence

/-- An edit with its confidence raised by that of `e`. -/
def raisedBy (x e : Edit) : Edit :=
  { x with confidence := x.confidence.max e.confidence }

theorem sameChange_raisedBy (f x e : Edit) : f.sameChange (x.raisedBy e) = f.sameChange x := rfl

theorem insertInto_cons_of_same (xs : List Edit) (h : x.sameChange e = true) :
    insertInto e (x :: xs) = x.raisedBy e :: xs := by
  rw [insertInto, if_pos h]; rfl

theorem insertInto_cons_of_ne (xs : List Edit) (h : x.sameChange e = false) :
    insertInto e (x :: xs) = x :: insertInto e xs := by
  rw [insertInto, if_neg (Bool.eq_false_iff.1 h)]

theorem mem_insertInto (h : x ∈ insertInto e edits) :
    x ∈ edits ∨ x = e ∨ ∃ y ∈ edits, y.sameChange e = true ∧ x = y.raisedBy e := by
  induction edits with
  | nil => exact .inr (.inl (List.mem_singleton.1 h))
  | cons y edits ih =>
    cases hy : y.sameChange e with
    | true =>
      rw [insertInto_cons_of_same edits hy] at h
      rcases List.mem_cons.1 h with rfl | h
      · exact .inr (.inr ⟨y, List.mem_cons_self, hy, rfl⟩)
      · exact .inl (List.mem_cons_of_mem _ h)
    | false =>
      rw [insertInto_cons_of_ne edits hy] at h
      rcases List.mem_cons.1 h with rfl | h
      · exact .inl List.mem_cons_self
      · rcases ih h with h | h | ⟨z, hz, hsame, rfl⟩
        · exact .inl (List.mem_cons_of_mem _ h)
        · exact .inr (.inl h)
        · exact .inr (.inr ⟨z, List.mem_cons_of_mem _ hz, hsame, rfl⟩)

theorem distinct_insertInto (e : Edit) (h : Distinct edits) : Distinct (insertInto e edits) := by
  induction edits with
  | nil => exact List.pairwise_singleton ..
  | cons x edits ih =>
    obtain ⟨hx, hrest⟩ := List.pairwise_cons.1 h
    cases hsame : x.sameChange e with
    | true =>
      rw [insertInto_cons_of_same edits hsame]
      exact List.pairwise_cons.2 ⟨hx, hrest⟩
    | false =>
      rw [insertInto_cons_of_ne edits hsame]
      refine List.pairwise_cons.2 ⟨fun y hy => ?_, ih hrest⟩
      rcases mem_insertInto hy with hy | rfl | ⟨z, hz, -, rfl⟩
      · exact hx y hy
      · exact hsame
      · rw [sameChange_raisedBy]; exact hx z hz

theorem comesFrom_raisedBy (hx : ComesFrom P x) (he : P e) (h : x.sameChange e = true) :
    ComesFrom P (x.raisedBy e) := by
  cases hc : x.confidence with
  | certain =>
    obtain ⟨f, hf, hsame, hconf⟩ := hx
    refine ⟨f, hf, hsame, ?_⟩
    rw [hconf, raisedBy, hc]; rfl
  | ambiguous =>
    refine ⟨e, he, ?_, ?_⟩
    · rw [sameChange_raisedBy]; exact sameChange_symm h
    · rw [raisedBy, hc]; rfl

theorem comesFrom_insertInto (h : ∀ x ∈ edits, ComesFrom P x) (he : P e) :
    ∀ x ∈ insertInto e edits, ComesFrom P x := by
  intro x hx
  rcases mem_insertInto hx with hx | rfl | ⟨y, hy, hsame, rfl⟩
  · exact h x hx
  · exact ⟨x, he, sameChange_self x, rfl⟩
  · exact comesFrom_raisedBy (h y hy) he hsame

/-! ## A whole list -/

/-- What is in the list once `e` has been added. -/
theorem mem_insertInto_iff (h : Distinct edits) : x ∈ insertInto e edits ↔
    (x ∈ edits ∧ x.sameChange e = false) ∨
    (∃ y ∈ edits, y.sameChange e = true ∧ x = y.raisedBy e) ∨
    (x = e ∧ ∀ y ∈ edits, y.sameChange e = false) := by
  induction edits with
  | nil => simp [insertInto]
  | cons y edits ih =>
    obtain ⟨hy, hrest⟩ := List.pairwise_cons.1 h
    cases hsame : y.sameChange e with
    | true =>
      -- the edits after `y` make other changes than `y`, and so than `e`
      have hother : ∀ z ∈ edits, z.sameChange e = false := by
        intro z hz
        rw [← hy z hz, Bool.eq_iff_iff, sameChange_comm y z]
        exact ⟨fun hze => sameChange_trans hze (sameChange_symm hsame),
          fun hzy => sameChange_trans hzy hsame⟩
      rw [insertInto_cons_of_same edits hsame, List.mem_cons]
      constructor
      · rintro (rfl | hx)
        · exact .inr (.inl ⟨y, List.mem_cons_self, hsame, rfl⟩)
        · exact .inl ⟨List.mem_cons_of_mem y hx, hother x hx⟩
      · rintro (⟨hx, hne⟩ | ⟨z, hz, hze, rfl⟩ | ⟨-, hall⟩)
        · rcases List.mem_cons.1 hx with rfl | hx
          · rw [hsame] at hne; cases hne
          · exact .inr hx
        · rcases List.mem_cons.1 hz with rfl | hz
          · exact .inl rfl
          · rw [hother z hz] at hze; cases hze
        · rw [hall y List.mem_cons_self] at hsame; cases hsame
    | false =>
      rw [insertInto_cons_of_ne edits hsame, List.mem_cons, ih hrest]
      constructor
      · rintro (rfl | ⟨hx, hne⟩ | ⟨z, hz, hze, rfl⟩ | ⟨rfl, hall⟩)
        · exact .inl ⟨List.mem_cons_self, hsame⟩
        · exact .inl ⟨List.mem_cons_of_mem y hx, hne⟩
        · exact .inr (.inl ⟨z, List.mem_cons_of_mem y hz, hze, rfl⟩)
        · exact .inr (.inr ⟨rfl, List.forall_mem_cons.2 ⟨hsame, hall⟩⟩)
      · rintro (⟨hx, hne⟩ | ⟨z, hz, hze, rfl⟩ | ⟨rfl, hall⟩)
        · exact (List.mem_cons.1 hx).imp_right fun hx => .inl ⟨hx, hne⟩
        · rcases List.mem_cons.1 hz with rfl | hz
          · rw [hsame] at hze; cases hze
          · exact .inr (.inr (.inl ⟨z, hz, hze, rfl⟩))
        · exact .inr (.inr (.inr ⟨rfl, (List.forall_mem_cons.1 hall).2⟩))

/-- The edits, each change once. -/
def merged (edits : List Edit) : List Edit :=
  edits.foldl (fun xs e => insertInto e xs) []

theorem merged_concat (edits : List Edit) (e : Edit) :
    merged (edits ++ [e]) = insertInto e (merged edits) :=
  List.foldl_append ..

theorem edits_foldl_push (edits : List Edit) (p : Path) :
    (edits.foldl FileEdits.push (FileEdits.new p)).edits = merged edits := by
  induction edits using List.reverseRecOn with
  | nil => rfl
  | append_singleton edits e ih =>
    rw [List.foldl_append, List.foldl_cons, List.foldl_nil, merged_concat, ← ih]
    rfl

theorem distinct_merged (edits : List Edit) : Distinct (merged edits) := by
  induction edits using List.reverseRecOn with
  | nil => exact .nil
  | append_singleton edits e ih =>
    rw [merged_concat]
    exact distinct_insertInto e ih

/-- Every change that was proposed is kept. -/
theorem exists_mem_merged (h : e ∈ edits) : ∃ x ∈ merged edits, x.sameChange e = true := by
  induction edits using List.reverseRecOn with
  | nil => cases h
  | append_singleton edits f ih =>
    simp only [merged_concat, mem_insertInto_iff (distinct_merged edits)]
    rcases List.mem_append.1 h with h | h
    · obtain ⟨x, hx, hxe⟩ := ih h
      cases hxf : x.sameChange f with
      | true => exact ⟨x.raisedBy f, .inr (.inl ⟨x, hx, hxf, rfl⟩), hxe⟩
      | false => exact ⟨x, .inl ⟨hx, hxf⟩, hxe⟩
    · obtain rfl := List.mem_singleton.1 h
      -- the last edit makes a change that is kept already, or a new one
      by_cases hany : ∃ y ∈ merged edits, y.sameChange e = true
      · obtain ⟨y, hy, hye⟩ := hany
        exact ⟨y.raisedBy e, .inr (.inl ⟨y, hy, hye, rfl⟩), hye⟩
      · refine ⟨e, .inr (.inr ⟨rfl, fun y hy => ?_⟩), sameChange_self e⟩
        exact Bool.eq_false_iff.2 fun hye => hany ⟨y, hy, hye⟩

theorem exists_mem_concat : (∃ x ∈ edits ++ [e], P x) ↔ (∃ x ∈ edits, P x) ∨ P e := by
  simp only [List.mem_append, List.mem_singleton, or_and_right, exists_or, exists_eq_left]

theorem raisedBy_eq_certain :
    (x.raisedBy e).confidence = .certain ↔ x.confidence = .certain ∨ e.confidence = .certain := by
  cases hx : x.confidence <;> cases he : e.confidence <;> simp [raisedBy, Confidence.max, hx, he]

/-- **What is kept of a change** is in a file and on a line in which it was proposed, and is certain
if and only if it was proposed as certain. -/
theorem mem_merged (h : x ∈ merged edits) :
    (∃ e ∈ edits, e.sameChange x = true ∧ e.file = x.file ∧ e.line = x.line) ∧
    (x.confidence = .certain ↔ ∃ e ∈ edits, e.sameChange x = true ∧ e.confidence = .certain) := by
  induction edits using List.reverseRecOn generalizing x with
  | nil => cases h
  | append_singleton edits f ih =>
    rw [merged_concat, mem_insertInto_iff (distinct_merged edits)] at h
    rw [exists_mem_concat, exists_mem_concat]
    rcases h with ⟨hx, hne⟩ | ⟨y, hy, hye, rfl⟩ | ⟨rfl, hall⟩
    · obtain ⟨horigin, hcertain⟩ := ih hx
      rw [sameChange_comm] at hne
      exact ⟨.inl horigin, by simp [hcertain, hne]⟩
    · obtain ⟨horigin, hcertain⟩ := ih hy
      have hsame : f.sameChange (y.raisedBy f) = true := by
        rw [sameChange_raisedBy]; exact sameChange_symm hye
      refine ⟨.inl horigin, ?_⟩
      rw [raisedBy_eq_certain, hcertain, hsame]
      simp only [sameChange_raisedBy, true_and]
    · have hself := sameChange_self x
      refine ⟨.inr ⟨hself, rfl, rfl⟩, fun hc => .inr ⟨hself, hc⟩, ?_⟩
      rintro (⟨e, he, hex, -⟩ | ⟨-, hc⟩)
      · -- the change would have been kept before
        obtain ⟨y, hy, hye⟩ := exists_mem_merged he
        have hyx : y.sameChange x = true := sameChange_trans hye hex
        rw [hall y hy] at hyx
        cases hyx
      · exact hc

theorem Distinct.nodup (h : Distinct edits) : edits.Nodup := by
  refine List.Pairwise.imp (fun hne heq => ?_) h
  rw [heq, sameChange_self] at hne
  cases hne

/-- Edits that make the same change are in the same file, under the same spelling, and on the same
line. -/
def Coherent (edits : List Edit) : Prop :=
  ∀ e ∈ edits, ∀ f ∈ edits, e.sameChange f = true → e.file = f.file ∧ e.line = f.line

theorem eq_of_sameChange (h : e.sameChange f = true) (hfile : e.file = f.file)
    (hline : e.line = f.line) (hconf : e.confidence = .certain ↔ f.confidence = .certain) :
    e = f := by
  obtain ⟨ho, hl, hr⟩ := sameChange_iff.1 h
  cases e with | mk file offset length replacement confidence line
  cases f with | mk file' offset' length' replacement' confidence' line'
  subst ho hl hr hfile hline
  cases confidence <;> cases confidence' <;> simp at hconf ⊢

theorem mem_merged_of_perm {edits' : List Edit} (hc : Coherent edits) (hp : edits.Perm edits')
    (hx : x ∈ merged edits) : x ∈ merged edits' := by
  obtain ⟨⟨e, he, hex, hefile, heline⟩, hxc⟩ := mem_merged hx
  -- of the other list an edit `y` is kept that makes the same change; it is `x` itself
  obtain ⟨y, hy, hye⟩ := exists_mem_merged (hp.mem_iff.1 he)
  obtain ⟨⟨f, hf, hfy, hffile, hfline⟩, hyc⟩ := mem_merged hy
  have hyx : y.sameChange x = true := sameChange_trans hye hex
  have hxy : x.sameChange y = true := sameChange_symm hyx
  obtain ⟨hfile, hline⟩ := hc e he f (hp.mem_iff.2 hf)
    (sameChange_trans hex (sameChange_trans hxy (sameChange_symm hfy)))
  have hconf : x.confidence = .certain ↔ y.confidence = .certain := by
    rw [hxc, hyc]
    constructor
    · rintro ⟨g, hg, hgx, hgc⟩
      exact ⟨g, hp.mem_iff.1 hg, sameChange_trans hgx hxy, hgc⟩
    · rintro ⟨g, hg, hgy, hgc⟩
      exact ⟨g, hp.mem_iff.2 hg, sameChange_trans hgy hyx, hgc⟩
  rwa [eq_of_sameChange hxy (by rw [← hefile, hfile, hffile]) (by rw [← heline, hline, hfline])
    hconf]

/-- **The order of proposals does not matter** for what is kept of them. -/
theorem merged_perm {edits' : List Edit} (hc : Coherent edits) (hp : edits.Perm edits') :
    (merged edits).Perm (merged edits') := by
  have hc' : Coherent edits' := fun e he f hf => hc e (hp.mem_iff.2 he) f (hp.mem_iff.2 hf)
  refine (List.perm_ext_iff_of_nodup (distinct_merged edits).nodup (distinct_merged edits').nodup).2
    fun x => ?_
  exact ⟨mem_merged_of_perm hc hp, mem_merged_of_perm hc' hp.symm⟩

/-- Merging looks at one change at a time. -/
theorem filter_insertInto {p : Edit → Bool} (hp : ∀ x y, x.sameChange y = true → p x = p y) (e : Edit)
    (edits : List Edit) : (insertInto e edits).filter p =
      if p e then insertInto e (edits.filter p) else edits.filter p := by
  induction edits with
  | nil => cases he : p e <;> simp [insertInto, he]
  | cons x edits ih =>
    cases hsame : x.sameChange e with
    | true =>
      have hx : p x = p e := hp x e hsame
      have hraised : p (x.raisedBy e) = p e := hp _ e hsame
      rw [insertInto_cons_of_same edits hsame]
      cases he : p e with
      | true => simp [hx, hraised, he, insertInto_cons_of_same _ hsame]
      | false => simp [hx, hraised, he]
    | false =>
      rw [insertInto_cons_of_ne edits hsame, List.filter_cons, ih, List.filter_cons]
      cases hx : p x <;> cases he : p e <;> simp [insertInto_cons_of_ne _ hsame]

theorem filter_merged {p : Edit → Bool} (hp : ∀ x y, x.sameChange y = true → p x = p y)
    (edits : List Edit) : (merged edits).filter p = merged (edits.filter p) := by
  induction edits using List.reverseRecOn with
  | nil => rfl
  | append_singleton edits e ih =>
    rw [merged_concat, filter_insertInto hp, ih, List.filter_append]
    cases he : p e with
    | true => rw [List.filter_cons_of_pos he, List.filter_nil, merged_concat]; rfl
    | false => rw [List.filter_cons_of_neg (by rw [he]; exact Bool.false_ne_true)]; simp

end PhpRename.Edit
