import PhpRename.Proofs.Disk.Entry

/-!
# Walks along paths

A walk over a tree goes from directory to directory; `walk_induction` is the induction along it, and
`walk_name` says what it does at an entry. What comes of a walk when one file has new content, or
stands where a link to it stood:

* `walk_at_name`: a walk that ends at the file or the link ends at the file.
* `walk_elsewhere`: a walk that neither ends there nor at what the link led to ends as before.
-/

namespace PhpRename.Disk

variable {d d' : Disk} {follow : Bool} {links : Nat} {dir n r : Name} {piece : List Char}
  {pieces rest : List (List Char)} {last target : String} {node : Node} {content : Content}

/-! ## One piece -/

/-- The piece is the name of an entry. -/
def IsEntryName (piece : List Char) : Prop :=
  piece ≠ [] ∧ piece ≠ ['.'] ∧ piece ≠ ['.', '.']

instance (piece : List Char) : Decidable (IsEntryName piece) :=
  inferInstanceAs (Decidable (_ ∧ _ ∧ _))

/-- Where the walk goes on behind a link that lies in `dir`. -/
def linkStart (dir : Name) (target : String) : Name :=
  if (⟨target⟩ : Path).isAbsolute then [] else dir

/-- How the walk goes on at the entry `last` of `dir`, under which the node stands. -/
def enter (d : Disk) (follow : Bool) (links : Nat) (dir : Name) (last : String)
    (rest : List (List Char)) : Option Node → Except Fault Place
  | none => if onlySlashes rest then .ok (.free dir last (!rest.isEmpty)) else .error .notFound
  | some (.directory _) => d.walk follow links (dir ++ [last]) rest
  | some (.file content writable) =>
    if rest.isEmpty then .ok (.taken (dir ++ [last]) (.file content writable))
    else .error .notDirectory
  | some (.link target) =>
    if !follow && rest.isEmpty then .ok (.taken (dir ++ [last]) (.link target))
    else if !follow && onlySlashes rest then .error .notDirectory
    else
      match links with
      | 0 => .error .tooManyLinks
      | links + 1 => d.walk follow links (linkStart dir target) (Path.segments target.toList ++ rest)

theorem enter_link : d.enter follow links dir last rest (some (.link target)) =
    if !follow && rest.isEmpty then .ok (.taken (dir ++ [last]) (.link target))
    else if !follow && onlySlashes rest then .error .notDirectory
    else
      match links with
      | 0 => .error .tooManyLinks
      | links + 1 =>
        d.walk follow links (linkStart dir target) (Path.segments target.toList ++ rest) := by
  cases links <;> rfl

theorem walk_nil (hdir : d.IsDirectory dir) (follow : Bool) (links : Nat) :
    ∃ writable, d.walk follow links dir [] = .ok (.taken dir (.directory writable)) := by
  obtain ⟨writable, hnode⟩ := hdir
  exact ⟨writable, by rw [walk, hnode]⟩

theorem walk_blank (h : piece = [] ∨ piece = ['.']) :
    d.walk follow links dir (piece :: rest) = d.walk follow links dir rest := by
  rw [walk, if_pos h]

theorem walk_up : d.walk follow links dir (['.', '.'] :: rest) =
    d.walk follow links dir.dropLast rest := by
  rw [walk, if_neg (by decide), if_pos rfl]

theorem walk_name (h : IsEntryName piece) : d.walk follow links dir (piece :: rest) =
    if maxName < (String.ofList piece).utf8ByteSize then .error .nameTooLong
    else d.enter follow links dir (String.ofList piece) rest
      (d.node? (dir ++ [String.ofList piece])) := by
  obtain ⟨hne, hdot, hdots⟩ := h
  rw [walk, if_neg (by simp [hne, hdot]), if_neg hdots]
  dsimp only
  split
  · rfl
  · cases d.node? (dir ++ [String.ofList piece]) with
    | none => rfl
    | some node =>
      cases node with
      | file content writable => rfl
      | directory writable => rfl
      | link target =>
        cases links with
        | zero => rfl
        | succ links => rfl

theorem isDirectory_linkStart (hdir : d.IsDirectory dir) (target : String) :
    d.IsDirectory (linkStart dir target) := by
  rw [linkStart]
  split
  · exact d.isDirectory_nil
  · exact hdir

/-- How a walk that comes to a place goes on at the entry `last` of `dir`. -/
inductive Passes (d : Disk) (follow : Bool) (links : Nat) (dir : Name) (last : String)
    (rest : List (List Char)) (place : Place) : Prop
  /-- Nothing is there yet. -/
  | free (none : d.node? (dir ++ [last]) = none) (slashes : onlySlashes rest = true)
      (here : place = .free dir last (!rest.isEmpty)) : Passes d follow links dir last rest place
  /-- It goes into a directory. -/
  | into (writable : Bool) (there : d.node? (dir ++ [last]) = some (.directory writable))
      (go : d.walk follow links (dir ++ [last]) rest = .ok place) :
      Passes d follow links dir last rest place
  /-- It ends at a file. -/
  | file (content : Content) (writable : Bool)
      (there : d.node? (dir ++ [last]) = some (.file content writable)) (at_end : rest = [])
      (here : place = .taken (dir ++ [last]) (.file content writable)) :
      Passes d follow links dir last rest place
  /-- It ends at a link. -/
  | link (target : String) (there : d.node? (dir ++ [last]) = some (.link target))
      (stays : follow = false) (at_end : rest = [])
      (here : place = .taken (dir ++ [last]) (.link target)) :
      Passes d follow links dir last rest place
  /-- It goes on behind a link. -/
  | past (target : String) (left : Nat) (there : d.node? (dir ++ [last]) = some (.link target))
      (one_less : links = left + 1) (onward : follow = true ∨ onlySlashes rest = false)
      (go : d.walk follow left (linkStart dir target) (Path.segments target.toList ++ rest) =
        .ok place) : Passes d follow links dir last rest place

theorem passes_of_walk {place : Place} (hname : IsEntryName piece)
    (h : d.walk follow links dir (piece :: rest) = .ok place) :
    ¬ maxName < (String.ofList piece).utf8ByteSize ∧
      d.Passes follow links dir (String.ofList piece) rest place := by
  rw [walk_name hname] at h
  split at h
  · cases h
  rename_i hlong
  refine ⟨hlong, ?_⟩
  cases hnode : d.node? (dir ++ [String.ofList piece]) with
  | none =>
    rw [hnode, enter] at h
    split at h
    · rename_i hslashes
      exact .free hnode hslashes (Except.ok.inj h).symm
    · cases h
  | some there =>
    rw [hnode] at h
    cases there with
    | directory writable => exact .into writable hnode h
    | file content writable =>
      rw [enter] at h
      split at h
      · rename_i hrest
        exact .file content writable hnode (List.isEmpty_iff.1 hrest) (Except.ok.inj h).symm
      · cases h
    | link target =>
      rw [enter_link] at h
      split at h
      · rename_i hend
        rw [Bool.and_eq_true, Bool.not_eq_true', List.isEmpty_iff] at hend
        exact .link target hnode hend.1 hend.2 (Except.ok.inj h).symm
      split at h
      · cases h
      rename_i hslash
      cases links with
      | zero => cases h
      | succ left =>
        refine .past target left hnode rfl ?_ h
        cases follow with
        | true => exact .inl rfl
        | false => exact .inr (Bool.eq_false_iff.2 hslash)

theorem walk_into {writable : Bool} (hname : IsEntryName piece)
    (hlong : ¬ maxName < (String.ofList piece).utf8ByteSize)
    (hnode : d.node? (dir ++ [String.ofList piece]) = some (.directory writable)) :
    d.walk follow links dir (piece :: rest) =
      d.walk follow links (dir ++ [String.ofList piece]) rest := by
  rw [walk_name hname, if_neg hlong, hnode]
  rfl

theorem walk_past {left : Nat} (hname : IsEntryName piece)
    (hlong : ¬ maxName < (String.ofList piece).utf8ByteSize)
    (hnode : d.node? (dir ++ [String.ofList piece]) = some (.link target))
    (honward : follow = true ∨ onlySlashes rest = false) :
    d.walk follow (left + 1) dir (piece :: rest) =
      d.walk follow left (linkStart dir target) (Path.segments target.toList ++ rest) := by
  have hslash : (!follow && onlySlashes rest) = false := by
    rcases honward with rfl | hrest
    · rfl
    · rw [hrest, Bool.and_false]
  have hend : (!follow && rest.isEmpty) = false := by
    rcases honward with rfl | hrest
    · rfl
    · cases rest with
      | nil => cases hrest
      | cons _ _ => exact Bool.and_false _
  rw [walk_name hname, if_neg hlong, hnode, enter_link, hend, hslash, if_neg Bool.false_ne_true,
    if_neg Bool.false_ne_true]

/-- **Induction along a walk.** A walk comes by directories only; at an entry it goes on in a
directory, or behind a link as long as it may. -/
theorem walk_induction (hd : d.IsTree)
    {motive : ∀ (_ : Nat) (dir : Name) (_ : List (List Char)), d.IsDirectory dir → Prop}
    (nil : ∀ links dir hdir, motive links dir [] hdir)
    (blank : ∀ links dir piece rest hdir, piece = [] ∨ piece = ['.'] →
      motive links dir rest hdir → motive links dir (piece :: rest) hdir)
    (up : ∀ links dir rest hdir, motive links dir.dropLast rest (hd.dropLast hdir) →
      motive links dir (['.', '.'] :: rest) hdir)
    (name : ∀ links dir piece rest hdir, IsEntryName piece →
      (∀ hentry, motive links (dir ++ [String.ofList piece]) rest hentry) →
      (∀ left target, links = left + 1 → motive left (linkStart dir target)
        (Path.segments target.toList ++ rest) (isDirectory_linkStart hdir target)) →
      motive links dir (piece :: rest) hdir)
    (links : Nat) (dir : Name) (pieces : List (List Char)) (hdir : d.IsDirectory dir) :
    motive links dir pieces hdir := by
  induction links using Nat.strongRecOn generalizing dir pieces with
  | _ links ihlinks =>
    induction pieces generalizing dir with
    | nil => exact nil links dir hdir
    | cons piece rest ih =>
      by_cases hblank : piece = [] ∨ piece = ['.']
      · exact blank links dir piece rest hdir hblank (ih dir hdir)
      by_cases hup : piece = ['.', '.']
      · subst hup
        exact up links dir rest hdir (ih _ (hd.dropLast hdir))
      rw [not_or] at hblank
      refine name links dir piece rest hdir ⟨hblank.1, hblank.2, hup⟩ (fun h => ih _ h) ?_
      rintro left target rfl
      exact ihlinks left (Nat.lt_succ_self left) _ _ _

/-! ## Links to a file -/

/-- Under the name `n` stands the file `r`, or a link that leads to it. -/
inductive LeadsTo (d : Disk) (r : Name) : Name → Prop
  | file (content : Content) (writable : Bool) (there : d.node? r = some (.file content writable)) :
      LeadsTo d r r
  | link (n : Name) (target : String) (left : Nat) (node : Node)
      (there : d.node? n = some (.link target)) (end_not_dir : ¬ d.IsDirectory r)
      (ends : d.walk true left (linkStart n.dropLast target) (Path.segments target.toList) =
        .ok (.taken r node)) : LeadsTo d r n

theorem LeadsTo.not_isDirectory (h : d.LeadsTo r n) : ¬ d.IsDirectory n := by
  rintro ⟨writable, hdir⟩
  cases h with
  | file content writable' hnode => rw [hnode] at hdir; cases hdir
  | link _ target left node hlink => rw [hlink] at hdir; cases hdir

/-- **A file is where a walk ends.** With more of the path left, and by whatever way through links,
the walk that would end at a file comes to nothing. -/
theorem walk_append (hd : d.IsTree) (hdir : d.IsDirectory dir) (hr : ¬ d.IsDirectory r)
    (h : d.walk true links dir pieces = .ok (.taken r node)) {more : List (List Char)}
    (hmore : follow = true ∨ onlySlashes more = false) (k : Nat) :
    d.walk follow k dir (pieces ++ more) = .error .tooManyLinks ∨
    (more = [] ∧ d.walk follow k dir (pieces ++ more) = .ok (.taken r node)) ∨
    (more ≠ [] ∧ d.walk follow k dir (pieces ++ more) = .error .notDirectory) := by
  induction links, dir, pieces, hdir using walk_induction hd generalizing k with
  | nil links dir hdir =>
    -- a walk that is at its end is at a directory
    obtain ⟨writable, hnil⟩ := walk_nil hdir true links
    rw [hnil] at h
    cases h
    exact absurd hdir hr
  | blank links dir piece rest hdir hblank ih =>
    rw [walk_blank hblank] at h
    rw [List.cons_append, walk_blank hblank]
    exact ih h k
  | up links dir rest hdir ih =>
    rw [walk_up] at h
    rw [List.cons_append, walk_up]
    exact ih h k
  | name links dir piece rest hdir hname ihdir ihlink =>
    rw [walk_name hname] at h
    rw [List.cons_append, walk_name hname]
    split at h
    · cases h
    rename_i hlong
    rw [if_neg hlong]
    cases hnode : d.node? (dir ++ [String.ofList piece]) with
    | none =>
      rw [hnode, enter] at h
      split at h <;> cases h
    | some there =>
      rw [hnode] at h
      cases there with
      | directory writable => exact ihdir ⟨writable, hnode⟩ h k
      | file content writable =>
        rw [enter] at h ⊢
        split at h
        swap
        · cases h
        rename_i hrest
        cases h
        rw [List.isEmpty_iff.1 hrest, List.nil_append]
        cases more with
        | nil => exact .inr (.inl ⟨rfl, rfl⟩)
        | cons piece' more => exact .inr (.inr ⟨List.cons_ne_nil _ _, rfl⟩)
      | link target =>
        have hend : (!follow && onlySlashes (rest ++ more)) = false := by
          rcases hmore with rfl | hmore
          · rfl
          · have : onlySlashes (rest ++ more) = (onlySlashes rest && onlySlashes more) :=
              List.all_append
            rw [this, hmore, Bool.and_false, Bool.and_false]
        have hend' : (!follow && (rest ++ more).isEmpty) = false := by
          rcases hmore with rfl | hmore
          · rfl
          · have : (rest ++ more).isEmpty = false := by
              cases more with
              | nil => cases hmore
              | cons piece' more => simp
            rw [this, Bool.and_false]
        cases links with
        | zero => cases h
        | succ left =>
          rw [enter_link, hend, hend', if_neg Bool.false_ne_true, if_neg Bool.false_ne_true]
          cases k with
          | zero => exact .inl rfl
          | succ k =>
            have := ihlink left target rfl h k
            rwa [List.append_assoc] at this

/-- What comes of a walk at the file, or at a link to it. -/
theorem enter_of_leadsTo (hd : d.IsTree) (hdir : d.IsDirectory dir)
    (h : d.LeadsTo r (dir ++ [last])) (follow : Bool) (k : Nat) (rest : List (List Char)) :
    let entered := d.enter follow k dir last rest (d.node? (dir ++ [last]))
    entered = .error .tooManyLinks ∨
    (rest = [] ∧ ∃ m node, entered = .ok (.taken m node) ∧
      (m = r ∨ follow = false ∧ m = dir ++ [last])) ∨
    (rest ≠ [] ∧ entered = .error .notDirectory) := by
  intro entered
  generalize hn : dir ++ [last] = n at h
  have hentered : entered = d.enter follow k dir last rest (d.node? n) := by rw [← hn]
  cases h with
  | file content writable hnode =>
    rw [hentered, hnode, enter]
    cases rest with
    | nil => exact .inr (.inl ⟨rfl, _, _, rfl, .inl hn⟩)
    | cons piece rest => exact .inr (.inr ⟨List.cons_ne_nil piece rest, rfl⟩)
  | link _ target left node hlink hr hwalk =>
    rw [← hn, List.dropLast_concat] at hwalk
    rw [hentered, hlink, enter_link]
    split
    · rename_i hend
      rw [Bool.and_eq_true, List.isEmpty_iff, Bool.not_eq_true'] at hend
      exact .inr (.inl ⟨hend.2, _, _, rfl, .inr ⟨hend.1, hn⟩⟩)
    · rename_i hend
      split
      · rename_i hslash
        refine .inr (.inr ⟨?_, rfl⟩)
        rintro rfl
        exact hend (by simpa [onlySlashes] using hslash)
      · rename_i hslash
        have hmore : follow = true ∨ onlySlashes rest = false := by
          cases follow
          · exact .inr (by simpa using hslash)
          · exact .inl rfl
        cases k with
        | zero => exact .inl rfl
        | succ k =>
          rcases walk_append hd (isDirectory_linkStart hdir target) hr hwalk hmore k with hlinks | ⟨rfl, htaken⟩ | hfar
          · exact .inl hlinks
          · exact .inr (.inl ⟨rfl, _, _, htaken, .inl rfl⟩)
          · exact .inr (.inr hfar)

/-- A walk ends at what stands there, and not at a link if it follows links. -/
theorem node?_of_walk (hd : d.IsTree) (hdir : d.IsDirectory dir)
    (h : d.walk follow links dir pieces = .ok (.taken r node)) :
    d.node? r = some node ∧ (follow = true → ∀ target, node ≠ .link target) := by
  induction links, dir, pieces, hdir using walk_induction hd with
  | nil links dir hdir =>
    obtain ⟨writable, hnode⟩ := hdir
    rw [walk, hnode] at h
    cases h
    exact ⟨hnode, fun _ target he => by cases he⟩
  | blank links dir piece rest hdir hblank ih =>
    rw [walk_blank hblank] at h
    exact ih h
  | up links dir rest hdir ih =>
    rw [walk_up] at h
    exact ih h
  | name links dir piece rest hdir hname ihdir ihlink =>
    cases (passes_of_walk hname h).2 with
    | free none slashes here => cases here
    | into writable there go => exact ihdir ⟨writable, there⟩ go
    | file content writable there at_end here =>
      cases here
      exact ⟨there, fun _ target he => by cases he⟩
    | link target there stays at_end here =>
      cases here
      exact ⟨there, fun hfollow => absurd (stays.symm.trans hfollow) Bool.false_ne_true⟩
    | past target left there one_less onward go => exact ihlink left target one_less go

/-- A path that ends in a slash leads to a directory, if to anything. -/
theorem isDirectory_of_walk (hd : d.IsTree) (hdir : d.IsDirectory dir)
    (h : d.walk follow links dir pieces = .ok (.taken r node)) (hslash : pieces.getLast? = some []) :
    d.IsDirectory r := by
  induction links, dir, pieces, hdir using walk_induction hd with
  | nil links dir hdir => cases hslash
  | blank links dir piece rest hdir hblank ih =>
    rw [walk_blank hblank] at h
    cases rest with
    | nil =>
      obtain ⟨writable, hnil⟩ := walk_nil hdir follow links
      rw [hnil] at h
      cases h
      exact hdir
    | cons next rest => exact ih h hslash
  | up links dir rest hdir ih =>
    cases rest with
    | nil => cases hslash
    | cons next rest =>
      rw [walk_up] at h
      exact ih h hslash
  | name links dir piece rest hdir hname ihdir ihlink =>
    -- the slash is still to come, so the walk does not end at the entry
    have hrest : rest ≠ [] := by
      rintro rfl
      exact hname.1 (Option.some.inj hslash)
    have hlast : rest.getLast? = some [] := by
      cases rest with
      | nil => exact absurd rfl hrest
      | cons next rest => exact hslash
    cases (passes_of_walk hname h).2 with
    | free none slashes here => cases here
    | into writable there go => exact ihdir ⟨writable, there⟩ go hlast
    | file content writable there at_end here => exact absurd at_end hrest
    | link target there stays at_end here => exact absurd at_end hrest
    | past target left there one_less onward go =>
      exact ihlink left target one_less go (by rw [List.getLast?_append, hlast]; rfl)

/-- **What a path names that leads to a file**: the file, or a link to it. -/
theorem exists_leadsTo_of_walk (hd : d.IsTree) (hdir : d.IsDirectory dir) (hr : ¬ d.IsDirectory r)
    (h : d.walk true links dir pieces = .ok (.taken r node)) :
    ∃ n there, d.walk false links dir pieces = .ok (.taken n there) ∧ d.LeadsTo r n := by
  induction links, dir, pieces, hdir using walk_induction hd with
  | nil links dir hdir =>
    obtain ⟨writable, hnil⟩ := walk_nil hdir true links
    rw [hnil] at h
    cases h
    exact absurd hdir hr
  | blank links dir piece rest hdir hblank ih =>
    rw [walk_blank hblank] at h ⊢
    exact ih h
  | up links dir rest hdir ih =>
    rw [walk_up] at h ⊢
    exact ih h
  | name links dir piece rest hdir hname ihdir ihlink =>
    obtain ⟨hlong, hpasses⟩ := passes_of_walk hname h
    cases hpasses with
    | free none slashes here => cases here
    | into writable there go =>
      rw [walk_into hname hlong there]
      exact ihdir ⟨writable, there⟩ go
    | file content writable there at_end here =>
      cases here
      rw [walk_name hname, if_neg hlong, there, enter, if_pos (List.isEmpty_iff.2 at_end)]
      exact ⟨_, _, rfl, .file content writable there⟩
    | link target there stays at_end here => cases stays
    | past target left there one_less onward go =>
      subst one_less
      by_cases hrest : rest = []
      · subst hrest
        rw [List.append_nil] at go
        rw [walk_name hname, if_neg hlong, there]
        refine ⟨_, _, rfl, .link _ target left node there hr ?_⟩
        rwa [List.dropLast_concat]
      · -- with nothing but slashes left, the link would lead to a directory
        have hslashes : onlySlashes rest = false := by
          refine Bool.eq_false_iff.2 fun hslashes => hr ?_
          refine isDirectory_of_walk hd (isDirectory_linkStart hdir target) go ?_
          have hlast := List.all_eq_true.1 hslashes _ (List.getLast_mem hrest)
          rw [List.getLast?_append, List.getLast?_eq_some_getLast hrest, List.isEmpty_iff.1 hlast]
          rfl
        rw [walk_past hname hlong there (.inr hslashes)]
        exact ihlink left target rfl go

/-! ## When a file has got new content -/

/-- **A walk that ends at the name** ends at the file that stands there now. -/
theorem walk_at_name (hd : d.IsTree) (h : d.Replaces d' n content) (hn : d.LeadsTo r n)
    (hdir : d.IsDirectory dir) (hwalk : d.walk false links dir pieces = .ok (.taken n node))
    (follow : Bool) : d'.walk follow links dir pieces = .ok (.taken n (.file content true)) := by
  induction links, dir, pieces, hdir using walk_induction hd with
  | nil links dir hdir =>
    obtain ⟨writable, hnil⟩ := walk_nil hdir false links
    rw [hnil] at hwalk
    cases hwalk
    exact absurd hdir hn.not_isDirectory
  | blank links dir piece rest hdir hblank ih =>
    rw [walk_blank hblank] at hwalk ⊢
    exact ih hwalk
  | up links dir rest hdir ih =>
    rw [walk_up] at hwalk ⊢
    exact ih hwalk
  | name links dir piece rest hdir hname ihdir ihlink =>
    rw [walk_name hname] at hwalk ⊢
    split at hwalk
    · cases hwalk
    rename_i hlong
    rw [if_neg hlong]
    by_cases he : dir ++ [String.ofList piece] = n
    · -- with more of the path left, the walk would not have ended there
      have hn' : d.LeadsTo r (dir ++ [String.ofList piece]) := he ▸ hn
      rcases enter_of_leadsTo hd hdir hn' false links rest with hlinks | ⟨rfl, -⟩ | ⟨-, hfar⟩
      · rw [hlinks] at hwalk; cases hwalk
      · rw [he, h.there, enter, ← he]
        rfl
      · rw [hfar] at hwalk; cases hwalk
    · rw [h.others _ he]
      cases hnode : d.node? (dir ++ [String.ofList piece]) with
      | none =>
        rw [hnode, enter] at hwalk
        split at hwalk <;> cases hwalk
      | some there =>
        rw [hnode] at hwalk
        cases there with
        | directory writable => exact ihdir ⟨writable, hnode⟩ hwalk
        | file content' writable =>
          rw [enter] at hwalk
          split at hwalk
          · cases hwalk; exact absurd rfl he
          · cases hwalk
        | link target =>
          rw [enter_link] at hwalk
          simp only [Bool.not_false, Bool.true_and] at hwalk
          split at hwalk
          · cases hwalk; exact absurd rfl he
          rename_i hrest
          split at hwalk
          · cases hwalk
          rename_i hslash
          rw [enter_link, Bool.eq_false_iff.2 hrest, Bool.eq_false_iff.2 hslash, Bool.and_false,
            if_neg Bool.false_ne_true, if_neg Bool.false_ne_true]
          cases links with
          | zero => cases hwalk
          | succ left => exact ihlink left target rfl hwalk

/-- **A walk that ends elsewhere**, neither at the name nor at what stood there or was linked to,
ends as before. Only if it has met too many links may it meet fewer now. -/
theorem walk_elsewhere (hd : d.IsTree) (h : d.Replaces d' n content) (hn : d.LeadsTo r n)
    (hdir : d.IsDirectory dir) :
    d'.walk follow links dir pieces = d.walk follow links dir pieces ∨
    d.walk follow links dir pieces = .error .tooManyLinks ∨
    ∃ m node, d.walk follow links dir pieces = .ok (.taken m node) ∧
      (m = r ∨ follow = false ∧ m = n) := by
  induction links, dir, pieces, hdir using walk_induction hd with
  | nil links dir hdir =>
    have hne : dir ≠ n := fun he => hn.not_isDirectory (he ▸ hdir)
    rw [walk, walk, h.others dir hne]
    exact .inl rfl
  | blank links dir piece rest hdir hblank ih =>
    rw [walk_blank hblank, walk_blank hblank]
    exact ih
  | up links dir rest hdir ih =>
    rw [walk_up, walk_up]
    exact ih
  | name links dir piece rest hdir hname ihdir ihlink =>
    rw [walk_name hname, walk_name hname]
    split
    · exact .inl rfl
    by_cases he : dir ++ [String.ofList piece] = n
    · have hn' : d.LeadsTo r (dir ++ [String.ofList piece]) := he ▸ hn
      rcases enter_of_leadsTo hd hdir hn' follow links rest with hlinks | ⟨rfl, m, node, hends, hm⟩ |
        ⟨hrest, hfar⟩
      · exact .inr (.inl hlinks)
      · exact .inr (.inr ⟨m, node, hends, he ▸ hm⟩)
      · rw [hfar, he, h.there, enter, if_neg (by simpa using hrest)]
        exact .inl rfl
    · rw [h.others _ he]
      cases hnode : d.node? (dir ++ [String.ofList piece]) with
      | none => exact .inl rfl
      | some there =>
        cases there with
        | directory writable => exact ihdir ⟨writable, hnode⟩
        | file content' writable => exact .inl rfl
        | link target =>
          rw [enter_link, enter_link]
          split
          · exact .inl rfl
          split
          · exact .inl rfl
          cases links with
          | zero => exact .inl rfl
          | succ left => exact ihlink left target rfl

end PhpRename.Disk
