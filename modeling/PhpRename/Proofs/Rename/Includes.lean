import PhpRename.Proofs.Path.Relation
import PhpRename.Rename.Includes

/-!
# Where a rewritten include leads

An include that is certain to name a file is rewritten so that it names the file in its new place. A
guess only knows the base directory from which the names of the literal lead to the file. It forgets
the steps up that the literal takes before.

* `parts_resolve`: a literal takes its steps from the directory of its file, or from the root.
* `include_follows_file`: an include that is certain names the file in its new place.
* `guess_consistent`: whether a guess and its literal name the file from one directory.
-/

namespace PhpRename.Rename

open Php PhpRename.Path

variable {p old new : Path} {t : Target} {name : String} {cs front : List Char}

/-! ## Steps of a literal -/

/-- The text behind the last slash, or the whole text when it has none. -/
def behindSlash (literal : String) : String :=
  String.ofList (literal.toList.reverse.takeWhile (· ≠ '/')).reverse

/-- Slashes in front are no steps. -/
theorem steps_dropWhile_slash (cs : List Char) : steps (cs.dropWhile (· = '/')) = steps cs := by
  induction cs with
  | nil => rfl
  | cons c cs ih =>
    by_cases hc : c = '/'
    · rw [List.dropWhile_cons_of_pos (by simp [hc]), ih, hc, steps_slash]
    · rw [List.dropWhile_cons_of_neg (by simp [hc])]

theorem isAbsolute_dropWhile_slash (cs : List Char) :
    (⟨String.ofList (cs.dropWhile (· = '/'))⟩ : Path).isAbsolute = false := by
  rw [isAbsolute, String.toList_ofList, decide_eq_false_iff_not]
  intro hhead
  have hno := List.head?_dropWhile_not (fun c => decide (c = '/')) cs
  rw [hhead] at hno
  cases hno

/-- A text ends with a slash, or is empty. -/
def EndsDirectory (front : List Char) : Prop :=
  front = [] ∨ ∃ as, front = as ++ ['/']

theorem endsDirectory_throughSlash (literal : String) :
    EndsDirectory (throughSlash literal).toList := by
  rw [throughSlash, String.toList_ofList]
  cases hback : literal.toList.reverse.dropWhile (· ≠ '/') with
  | nil => exact .inl rfl
  | cons c rest =>
    have hc := List.head?_dropWhile_not (fun c : Char => decide (c ≠ '/')) literal.toList.reverse
    rw [hback] at hc
    have hslash : c = '/' := by simpa using hc
    exact .inr ⟨rest.reverse, by rw [hslash, List.reverse_cons]⟩

theorem throughSlash_append_behindSlash (literal : String) :
    throughSlash literal ++ behindSlash literal = literal := by
  rw [← String.toList_inj, String.toList_append, throughSlash, behindSlash, String.toList_ofList,
    String.toList_ofList, ← List.reverse_append, List.takeWhile_append_dropWhile,
    List.reverse_reverse]

theorem EndsDirectory.steps_append (h : EndsDirectory front) (cs : List Char) :
    steps (front ++ cs) = steps front ++ steps cs := by
  rcases h with rfl | ⟨as, rfl⟩
  · rfl
  · rw [List.append_assoc, List.singleton_append, steps_append_slash, steps_append_slash]
    congr 1
    exact (List.append_nil _).symm

/-- Whether a text is absolute is told by the directory in it. -/
theorem EndsDirectory.isAbsolute_append {front : String} (h : EndsDirectory front.toList)
    {name : String} (hname : '/' ∉ name.toList) :
    (⟨front ++ name⟩ : Path).isAbsolute = (⟨front⟩ : Path).isAbsolute := by
  rw [isAbsolute, isAbsolute, String.toList_append]
  rcases h with hnil | ⟨as, has⟩
  · rw [hnil, List.nil_append]
    have hno : name.toList.head? ≠ some '/' := fun hhead => hname (List.mem_of_mem_head? hhead)
    simp [hno]
  · rw [has]
    cases as <;> simp

/-- Where the steps of a literal are taken from: the directory of the file, or the root. -/
def origin (t : Target) (p : Path) : List Part :=
  if (⟨t.literal⟩ : Path).isAbsolute && !t.fromDir then [.root] else p.directory.parts

/-- **A literal takes its steps** from the directory of its file, or from the root. -/
theorem parts_resolve (hp : p.Canonical) (t : Target) :
    (t.resolve p).parts = normalParts (origin t p ++ steps t.literal.toList) := by
  have hdir := spelling_ne hp.directory.absolute
  rw [Target.resolve, origin]
  cases hfrom : t.fromDir with
  | true =>
    -- the slashes in front are dropped, so that what is left is read from the directory
    have hbelow := isAbsolute_dropWhile_slash t.literal.toList
    have hread := parts_absoluteFrom hdir hbelow
    rw [absoluteFrom, if_neg (Bool.eq_false_iff.1 hbelow), String.toList_ofList,
      steps_dropWhile_slash] at hread
    rw [if_pos rfl, Bool.not_true, Bool.and_false, if_neg Bool.false_ne_true]
    exact hread
  | false =>
    rw [if_neg Bool.false_ne_true, Bool.not_false, Bool.and_true]
    cases habs : (⟨t.literal⟩ : Path).isAbsolute with
    | true =>
      rw [if_pos rfl]
      exact parts_absoluteFrom_of_absolute p.directory habs
    | false =>
      rw [if_neg Bool.false_ne_true]
      exact parts_absoluteFrom hdir habs

/-! ## Certain includes -/

/-- In the same directory the literal changes its file name alone. -/
theorem resolve_throughSlash (hp : p.Canonical) {above : Path} {newName : String}
    (hold : old.parts = above.parts ++ [.name name])
    (hnew : new.parts = above.parts ++ [.name newName])
    (ht : (t.resolve p == old) = true) (htail : behindSlash t.literal = name) :
    (({ t with literal := throughSlash t.literal ++ newName } : Target).resolve p == new) = true := by
  have hplain : (Part.name name).Plain :=
    plain_of_mem_parts (hold ▸ List.mem_concat_self)
  have hplain' : (Part.name newName).Plain :=
    plain_of_mem_parts (hnew ▸ List.mem_concat_self)
  have hfront := endsDirectory_throughSlash t.literal
  -- both literals are one directory and a name behind it
  have hread : ∀ text : String, (Part.name text).Plain →
      (({ t with literal := throughSlash t.literal ++ text } : Target).resolve p).parts =
        normalParts ((if (⟨throughSlash t.literal⟩ : Path).isAbsolute && !t.fromDir then [.root]
          else p.directory.parts) ++ steps (throughSlash t.literal).toList) ++ [.name text] := by
    intro text htext
    have hname := areNames_singleton text
    rw [parts_resolve hp, origin]
    dsimp only
    rw [hfront.isAbsolute_append htext.1, String.toList_append, hfront.steps_append,
      show steps text.toList = [.name text] from steps_of_plain htext, ← List.append_assoc,
      normalParts_append_names _ hname]
  have hliteral : throughSlash t.literal ++ name = t.literal := by
    rw [← htail, throughSlash_append_behindSlash]
  have hbefore := hread name hplain
  rw [hliteral] at hbefore
  have habove := List.append_cancel_right (hbefore.symm.trans ((beq_iff.1 ht).trans hold))
  rw [beq_iff, hread newName hplain', habove, hnew]

/-- In another directory the literal leads there from the directory of the file. -/
theorem resolve_leadingTo (hp : p.Canonical) (hnew : new.Canonical) {literal : String}
    (hrel : t.fromDir = false → (⟨literal⟩ : Path).isAbsolute = false)
    (hsteps : steps literal.toList = steps (leadingTo p.directory new).slashed.toList) :
    (({ t with literal } : Target).resolve p == new) = true := by
  have horigin : origin { t with literal } p = p.directory.parts := by
    rw [origin]
    cases hfrom : t.fromDir with
    | true => rw [Bool.not_true, Bool.and_false, if_neg Bool.false_ne_true]
    | false => rw [hrel hfrom, Bool.false_and, if_neg Bool.false_ne_true]
  rw [beq_iff, parts_resolve hp, horigin]
  dsimp only
  rw [hsteps]
  exact (absoluteFrom_leadingTo hp.directory hnew).2

/-- What is written for a target names the file in its new place. -/
theorem resolve_rewritten (hp : p.Canonical) (hnew : new.Canonical) (hname : old.fileName? = some name)
    (hnewName : new.fileName?.isSome = true) (ht : (t.resolve p == old) = true)
    (htail : behindSlash t.literal = name) :
    (({ t with literal := rewritten old new t p } : Target).resolve p == new) = true := by
  obtain ⟨newName, hnewName⟩ := Option.isSome_iff_exists.1 hnewName
  obtain ⟨above, hparent, hold⟩ := exists_parent? hname
  obtain ⟨above', hparent', hnew'⟩ := exists_parent? hnewName
  rw [rewritten, hparent, hparent', sameDirectory, hnewName]
  cases hsame : above == above' with
  | true =>
    rw [if_pos rfl]
    dsimp only
    rw [← beq_iff.1 hsame] at hnew'
    exact resolve_throughSlash hp hold hnew' ht htail
  | false =>
    rw [if_neg Bool.false_ne_true]
    dsimp only
    split
    · -- an absolute literal stays absolute
      rename_i habs
      obtain ⟨-, hfrom⟩ := Bool.and_eq_true_iff.1 habs
      rw [Target.resolve, if_neg (by simpa using hfrom)]
      exact absoluteFrom_slashed hnew p.directory
    · split
      · rename_i hfrom
        refine resolve_leadingTo hp hnew (fun hno => by rw [hno] at hfrom; cases hfrom) ?_
        rw [String.toList_append]
        exact steps_slash _
      · exact resolve_leadingTo hp hnew
          (fun _ => (absoluteFrom_leadingTo hp.directory hnew).1) rfl

/-- **A rewritten include names the file in its new place**, however it named it before: relative to
the directory of its file, with that directory in front, or absolute. -/
theorem include_follows_file (hp : p.Canonical) (hnew : new.Canonical)
    (hname : old.fileName? = some name) (hnewName : new.fileName?.isSome = true)
    (ht : (t.resolve p == old) = true) (htail : behindSlash t.literal = name) :
    ∃ literal, movedLiteral? old new t p = some (literal, .certain) ∧
      (({ t with literal } : Target).resolve p == new) = true :=
  ⟨rewritten old new t p, by rw [movedLiteral?, if_pos ht],
    resolve_rewritten hp hnew hname hnewName ht htail⟩

/-- A move to another directory, of a file that is named with detours. -/
theorem include_follows_file_detour :
    let p : Path := ⟨"/proj/web/index.php"⟩
    let old : Path := ⟨"/proj/src/Foo/Bar.php"⟩
    let new : Path := ⟨"/proj/lib/Baz.php"⟩
    let t : Target := ⟨"/./../src/x/../Foo/Bar.php", 0, true⟩
    (p.Canonical ∧ new.Canonical ∧ old.fileName? = some "Bar.php" ∧ new.fileName?.isSome = true ∧
      (t.resolve p == old) = true ∧ behindSlash t.literal = "Bar.php") ∧
    ∃ literal, movedLiteral? old new t p = some (literal, .certain) ∧
      (({ t with literal } : Target).resolve p == new) = true := by
  intro p old new t
  have hp : p.Canonical := ⟨by decide +kernel, by decide +kernel⟩
  have hnew : new.Canonical := ⟨by decide +kernel, by decide +kernel⟩
  have hname : old.fileName? = some "Bar.php" := by decide +kernel
  have hnewName : new.fileName?.isSome = true := by decide +kernel
  have ht : (t.resolve p == old) = true := by decide +kernel
  have htail : behindSlash t.literal = "Bar.php" := by decide +kernel
  exact ⟨⟨hp, hnew, hname, hnewName, ht, htail⟩,
    include_follows_file hp hnew hname hnewName ht htail⟩

/-! ## Guesses -/

/-- The names that a literal leads down by, without its steps up. -/
def downward (literal : String) : String :=
  (ofParts ((normalParts (⟨literal⟩ : Path).parts).filter Part.isName)).spelling

/-- The literal leads up before it leads down, and the file is below the base of the literal in its
new place, too, where the base is not the root. -/
def losesSteps (old new : Path) (literal : String) : Bool :=
  (normalParts (⟨literal⟩ : Path).parts).contains .up &&
    (baseOfTail? old ⟨literal⟩).any fun base => base.parts ≠ [.root] && (base.below? new).isSome

/-- A guess is for the tail of a path, and names the file from the base of that. -/
theorem guessed?_eq_some {replacement : String} (h : guessed? old new t = some replacement) :
    (⟨t.literal⟩ : Path).isAbsolute = false ∧ ∃ base, baseOfTail? old ⟨t.literal⟩ = some base ∧
      replacement = match base.below? new with
        | some tail => (ofParts tail).slashed
        | none => new.slashed := by
  rw [guessed?] at h
  split at h
  · cases h
  · rename_i hrel
    obtain ⟨base, hbase, rfl⟩ := Option.map_eq_some_iff.1 h
    rw [Bool.or_eq_true, not_or] at hrel
    exact ⟨Bool.eq_false_iff.2 hrel.2, base, hbase, rfl⟩

/-- What is written for a guess means the file in its new place, if it is read from the base, or if
that place is not below the base. -/
theorem absoluteFrom_replacement {base b : Path} {replacement : String} (hnew : new.Canonical)
    (hbase : base.Canonical) (hb : b.isAbsolute = true)
    (h : replacement = match base.below? new with
      | some tail => (ofParts tail).slashed
      | none => new.slashed) :
    (b.absoluteFrom ⟨replacement⟩ == new) = true ↔
      base.below? new = none ∨ normalParts b.parts = base.parts := by
  cases hbelow : base.below? new with
  | none =>
    rw [hbelow] at h
    rw [h]
    exact iff_of_true (absoluteFrom_slashed hnew b) (.inl rfl)
  | some tail =>
    rw [hbelow] at h
    have hparts := below?_eq_some.1 hbelow
    have htail : AreNames tail := by
      have hrooted := hnew.rooted
      rw [hparts] at hrooted
      obtain ⟨names, -, hbaseParts⟩ := hbase.rooted
      exact (hrooted.of_append (by rw [hbaseParts]; exact List.cons_ne_nil _ _)).2
    have hplain := htail.plain_of_subset (p := new) (hparts ▸ List.subset_append_right ..)
    have hslashed : (⟨replacement⟩ : Path) = ofParts tail := by
      rw [h]
      dsimp only
      rw [slashed, parts_ofParts ⟨tail, hplain, .inl rfl⟩]
    rw [hslashed, absoluteFrom_ofParts hb htail hparts]
    simp

theorem losesSteps_eq_false_iff {base : Path} {literal : String} {n : Nat} {names : List Part}
    (hleads : (⟨literal⟩ : Path).Leads n names) (hbase : baseOfTail? old ⟨literal⟩ = some base) :
    losesSteps old new literal = false ↔
      n = 0 ∨ base.parts = [.root] ∨ base.below? new = none := by
  have hup := hleads.contains_up
  rw [losesSteps, hbase, Option.any_some]
  cases hcontains : (normalParts (⟨literal⟩ : Path).parts).contains .up with
  | false =>
    have hn : n = 0 := by
      by_contra hne
      rw [hup.2 hne] at hcontains
      cases hcontains
    simp [hn]
  | true =>
    have hn : n ≠ 0 := hup.1 hcontains
    by_cases hroot : base.parts = [.root] <;> simp [hn, hroot]

/-- From the base, the names of the literal mean the file, and what is written means it in its new
place. -/
theorem exists_directory_downward (hold : old.Canonical) (hnew : new.Canonical)
    {replacement : String} (h : guessed? old new t = some replacement) :
    ∃ b : Path, b.isAbsolute = true ∧ (b.absoluteFrom ⟨downward t.literal⟩ == old) = true ∧
      (b.absoluteFrom ⟨replacement⟩ == new) = true := by
  obtain ⟨-, base, hbaseOf, hreplacement⟩ := guessed?_eq_some h
  obtain ⟨hbase, hparts⟩ := baseOfTail?_eq_some hold hbaseOf
  have hnames : AreNames ((normalParts (⟨t.literal⟩ : Path).parts).filter Part.isName) :=
    fun part hpart => (List.mem_filter.1 hpart).2
  have hnormal := hbase.rooted.normalParts
  exact ⟨base, hbase.absolute, (absoluteFrom_ofParts hbase.absolute hnames hparts).2 hnormal,
    (absoluteFrom_replacement hnew hbase hbase.absolute hreplacement).2 (.inr hnormal)⟩

/-- From some directory, the literal means the file and what is written means it in its new place, if
and only if no steps of the literal are lost. -/
theorem exists_directory_iff (hold : old.Canonical) (hnew : new.Canonical)
    {replacement : String} (h : guessed? old new t = some replacement) :
    (∃ b : Path, b.isAbsolute = true ∧ (b.absoluteFrom ⟨t.literal⟩ == old) = true ∧
      (b.absoluteFrom ⟨replacement⟩ == new) = true) ↔ losesSteps old new t.literal = false := by
  obtain ⟨hrel, base, hbaseOf, hreplacement⟩ := guessed?_eq_some h
  obtain ⟨hbase, hparts⟩ := baseOfTail?_eq_some hold hbaseOf
  obtain ⟨n, names, hleads⟩ := exists_leads hrel
  rw [hleads.filter_isName] at hparts
  have hnormal := hbase.rooted.normalParts
  have hwritten := fun b hb => absoluteFrom_replacement (b := b) hnew hbase hb hreplacement
  rw [losesSteps_eq_false_iff hleads hbaseOf]
  constructor
  · rintro ⟨b, hb, hliteral, hnewer⟩
    rcases (hwritten b hb).1 hnewer with hbelow | hsame
    · exact .inr (.inr hbelow)
    -- both are read from the base, so the steps up lead from there to itself
    · have hup := (hleads.absoluteFrom_iff hb hparts).1 hliteral
      rw [normalParts_append_congr (hsame.trans hnormal.symm),
        hbase.rooted.normalParts_up_eq_self] at hup
      exact hup.imp_right .inl
  · intro hcases
    rcases or_assoc.2 hcases with hstay | hbelow
    · have hup := (hbase.rooted.normalParts_up_eq_self n).2 hstay
      exact ⟨base, hbase.absolute, (hleads.absoluteFrom_iff hbase.absolute hparts).2 hup,
        (hwritten base hbase.absolute).2 (.inr hnormal)⟩
    · obtain ⟨b, hb, hup⟩ := hbase.exists_below n
      exact ⟨b, hb, (hleads.absoluteFrom_iff hb hparts).2 hup, (hwritten b hb).2 (.inl hbelow)⟩

/-- **A guess is consistent** with the names of the literal: from one directory these mean the file,
and what is written means it in its new place. With the literal itself it is so if and only if no
steps up of it are lost. -/
theorem guess_consistent (hold : old.Canonical) (hnew : new.Canonical) {replacement : String}
    (h : guessed? old new t = some replacement) :
    (∃ b : Path, b.isAbsolute = true ∧ (b.absoluteFrom ⟨downward t.literal⟩ == old) = true ∧
      (b.absoluteFrom ⟨replacement⟩ == new) = true) ∧
    ((∃ b : Path, b.isAbsolute = true ∧ (b.absoluteFrom ⟨t.literal⟩ == old) = true ∧
      (b.absoluteFrom ⟨replacement⟩ == new) = true) ↔ losesSteps old new t.literal = false) :=
  ⟨exists_directory_downward hold hnew h, exists_directory_iff hold hnew h⟩

/-- A literal with a detour, of a file that is renamed in its directory. -/
theorem guess_consistent_detour :
    let old : Path := ⟨"/p/src/Foo/Bar.php"⟩
    let new : Path := ⟨"/p/src/Foo/Baz.php"⟩
    let t : Target := ⟨"./Foo/x/../Bar.php", 0, false⟩
    (old.Canonical ∧ new.Canonical ∧ guessed? old new t = some "Foo/Baz.php") ∧
    ∃ b : Path, b.isAbsolute = true ∧ (b.absoluteFrom ⟨t.literal⟩ == old) = true ∧
      (b.absoluteFrom ⟨"Foo/Baz.php"⟩ == new) = true := by
  intro old new t
  have hold : old.Canonical := ⟨by decide +kernel, by decide +kernel⟩
  have hnew : new.Canonical := ⟨by decide +kernel, by decide +kernel⟩
  have hguess : guessed? old new t = some "Foo/Baz.php" := by decide +kernel
  exact ⟨⟨hold, hnew, hguess⟩, (guess_consistent hold hnew hguess).2.2 (by decide +kernel)⟩

/-- **Steps up are lost.** No directory is there from which the literal means the file and what is
written for it means the file in its new place. -/
theorem steps_up_lost :
    let old : Path := ⟨"/p/src/a.php"⟩
    let new : Path := ⟨"/p/src/b.php"⟩
    let t : Target := ⟨"../src/a.php", 0, false⟩
    old.Canonical ∧ new.Canonical ∧ guessed? old new t = some "src/b.php" ∧
    ¬ ∃ b : Path, b.isAbsolute = true ∧ (b.absoluteFrom ⟨t.literal⟩ == old) = true ∧
      (b.absoluteFrom ⟨"src/b.php"⟩ == new) = true := by
  intro old new t
  have hold : old.Canonical := ⟨by decide +kernel, by decide +kernel⟩
  have hnew : new.Canonical := ⟨by decide +kernel, by decide +kernel⟩
  have hguess : guessed? old new t = some "src/b.php" := by decide +kernel
  have hloses : losesSteps old new t.literal = true := by decide +kernel
  refine ⟨hold, hnew, hguess, ?_⟩
  rw [exists_directory_iff hold hnew hguess, hloses]
  exact Bool.noConfusion

end PhpRename.Rename
