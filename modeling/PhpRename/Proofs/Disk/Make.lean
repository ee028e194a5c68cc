import PhpRename.Proofs.Disk.Rewrite
import PhpRename.Proofs.Disk.Tidy
import PhpRename.Proofs.Path.Directory

/-!
# Making directories

Directories are made where nothing stands, and nothing else is changed (`Grown`). Making the directory
that a path lies in either changes nothing, or that directory is new and holds nothing. So the path
leads to nothing then that it did not lead to before (`makeDirectories_same`), unless it goes up
somewhere: `new/../there` leads nowhere until `new` has been made.
-/

namespace PhpRename.Disk

variable {d d' : Disk} {p q : Path} {follow : Bool} {links : Nat} {dir m n parent : Name}
  {pieces : List (List Char)} {node : Node} {last : String} {slash writable : Bool}

/-- Directories have been made where nothing stood, one after the other. -/
inductive Grown (d : Disk) : Disk → Prop
  | refl : Grown d d
  | make {d' : Disk} (h : Grown d d') {dir : Name} {last : String} (parent : d'.IsDirectory dir)
      (free : d'.node? (dir ++ [last]) = none) :
      Grown d (d'.set (dir ++ [last]) (.directory true))

namespace Grown

theorem trans {d'' : Disk} (h : d.Grown d') (h' : d'.Grown d'') : d.Grown d'' := by
  induction h' with
  | refl => exact h
  | make _ parent free ih => exact ih.make parent free

theorem tidy (h : d.Grown d') (hd : d.Tidy) : d'.Tidy := by
  induction h with
  | refl => exact hd
  | make _ parent free ih => exact ih.put parent free _

theorem contents_eq (h : d.Grown d') : d'.contents = d.contents := by
  induction h with
  | refl => rfl
  | make _ _ free ih => exact (contents_make free true).trans ih

/-- What stands somewhere stays. -/
theorem node?_eq (h : d.Grown d') (hn : d.node? n = some node) : d'.node? n = some node := by
  induction h with
  | refl => exact hn
  | make _ _ free ih => exact node?_set_of_free free ih _

end Grown

/-! ## Free places -/

theorem walk_onlySlashes (h : onlySlashes pieces = true) :
    d.walk follow links dir pieces = d.walk follow links dir [] := by
  induction pieces with
  | nil => rfl
  | cons piece pieces ih =>
    obtain ⟨hpiece, hrest⟩ := (Bool.and_eq_true ..).mp (show (piece.isEmpty && onlySlashes pieces) = true from h)
    rw [walk_blank (.inl (List.isEmpty_iff.1 hpiece)), ih hrest]

/-- A free place is one in a directory, where nothing stands. -/
theorem free_of_walk (hd : d.IsTree) (hdir : d.IsDirectory dir)
    (h : d.walk follow links dir pieces = .ok (.free parent last slash)) :
    d.IsDirectory parent ∧ d.node? (parent ++ [last]) = none := by
  induction links, dir, pieces, hdir using walk_induction hd with
  | nil links dir hdir =>
    obtain ⟨writable, hnil⟩ := walk_nil hdir follow links
    rw [hnil] at h
    cases h
  | blank links dir piece rest hdir hblank ih =>
    rw [walk_blank hblank] at h
    exact ih h
  | up links dir rest hdir ih =>
    rw [walk_up] at h
    exact ih h
  | name links dir piece rest hdir hname ihdir ihlink =>
    cases (passes_of_walk hname h).2 with
    | free none slashes here =>
      cases here
      exact ⟨hdir, none⟩
    | into writable there go => exact ihdir ⟨writable, there⟩ go
    | file content writable there at_end here => cases here
    | link target there stays at_end here => cases here
    | past target left there one_less onward go => exact ihlink left target one_less go

/-- A walk to a free place leads to the directory that is made there. -/
theorem walk_at_new (hd : d.IsTree) (hdir : d.IsDirectory dir)
    (h : d.walk false links dir pieces = .ok (.free parent last slash)) :
    (d.set (parent ++ [last]) (.directory true)).walk true links dir pieces =
      .ok (.taken (parent ++ [last]) (.directory true)) := by
  have hfree := (free_of_walk hd hdir h).2
  have hnew : (d.set (parent ++ [last]) (.directory true)).node? (parent ++ [last]) =
      some (.directory true) := by
    rw [node?_set d (List.concat_ne_nil last parent), if_pos rfl]
  induction links, dir, pieces, hdir using walk_induction hd with
  | nil links dir hdir =>
    obtain ⟨writable, hnil⟩ := walk_nil hdir false links
    rw [hnil] at h
    cases h
  | blank links dir piece rest hdir hblank ih =>
    rw [walk_blank hblank] at h ⊢
    exact ih h
  | up links dir rest hdir ih =>
    rw [walk_up] at h ⊢
    exact ih h
  | name links dir piece rest hdir hname ihdir ihlink =>
    obtain ⟨hlong, hpasses⟩ := passes_of_walk hname h
    cases hpasses with
    | free none slashes here =>
      cases here
      rw [walk_into hname hlong hnew, walk_onlySlashes slashes, walk, hnew]
    | into writable there go =>
      rw [walk_into hname hlong (node?_set_of_free hfree there _)]
      exact ihdir ⟨writable, there⟩ go
    | file content writable there at_end here => cases here
    | link target there stays at_end here => cases here
    | past target left there one_less onward go =>
      subst one_less
      rw [walk_past hname hlong (node?_set_of_free hfree there _) (.inl rfl)]
      exact ihlink left target rfl go

/-! ## Going on from a directory -/

/-- A walk that leads to a directory goes on from there. -/
theorem walk_from (hd : d.IsTree) (hdir : d.IsDirectory dir)
    (h : d.walk true links dir pieces = .ok (.taken m (.directory writable))) :
    ∃ left, ∀ follow more, onlySlashes more = false →
      d.walk follow links dir (pieces ++ more) = d.walk follow left m more := by
  induction links, dir, pieces, hdir using walk_induction hd with
  | nil links dir hdir =>
    obtain ⟨writable, hnil⟩ := walk_nil hdir true links
    rw [hnil] at h
    cases h
    exact ⟨links, fun _ _ _ => rfl⟩
  | blank links dir piece rest hdir hblank ih =>
    rw [walk_blank hblank] at h
    obtain ⟨left, hleft⟩ := ih h
    refine ⟨left, fun follow more hmore => ?_⟩
    rw [List.cons_append, walk_blank hblank, hleft follow more hmore]
  | up links dir rest hdir ih =>
    rw [walk_up] at h
    obtain ⟨left, hleft⟩ := ih h
    refine ⟨left, fun follow more hmore => ?_⟩
    rw [List.cons_append, walk_up, hleft follow more hmore]
  | name links dir piece rest hdir hname ihdir ihlink =>
    obtain ⟨hlong, hpasses⟩ := passes_of_walk hname h
    cases hpasses with
    | free none slashes here => cases here
    | into writable there go =>
      obtain ⟨left, hleft⟩ := ihdir ⟨writable, there⟩ go
      refine ⟨left, fun follow more hmore => ?_⟩
      rw [List.cons_append, walk_into hname hlong there, hleft follow more hmore]
    | file content writable there at_end here => cases here
    | link target there stays at_end here => cases here
    | past target links' there one_less onward go =>
      subst one_less
      obtain ⟨left, hleft⟩ := ihlink links' target rfl go
      refine ⟨left, fun follow more hmore => ?_⟩
      -- the link is not at the end of the longer path, so it is followed there in any case
      have hslashes : onlySlashes (rest ++ more) = false := by
        rw [onlySlashes, List.all_append, ← onlySlashes, ← onlySlashes, hmore, Bool.and_false]
      rw [List.cons_append, walk_past hname hlong there (.inr hslashes), ← List.append_assoc,
        hleft follow more hmore]

/-! ## What lies in a new directory -/

/-- The path leads to a directory that holds nothing. -/
def LeadsToEmpty (d : Disk) (p : Path) : Prop :=
  ∃ m writable, d.place true p = .ok (.taken m (.directory writable)) ∧
    ∀ last, d.node? (m ++ [last]) = none

theorem walk_blanks {blanks rest : List (List Char)} (h : ∀ s ∈ blanks, Path.Part.ofSegment? s = none) :
    d.walk follow links dir (blanks ++ rest) = d.walk follow links dir rest := by
  induction blanks with
  | nil => rfl
  | cons piece blanks ih =>
    obtain ⟨hpiece, hblanks⟩ := List.forall_mem_cons.1 h
    have hblank : piece = [] ∨ piece = ['.'] := by
      by_contra hname
      rw [Path.Part.ofSegment?, if_neg hname] at hpiece
      split at hpiece <;> cases hpiece
    rw [List.cons_append, walk_blank hblank, ih hblanks]

theorem isEntryName_of_ofSegment? {piece : List Char} {part : Path.Part}
    (h : Path.Part.ofSegment? piece = some part) (hup : part ≠ .up) : IsEntryName piece := by
  rw [Path.Part.ofSegment?] at h
  split at h
  · cases h
  rename_i hblank
  rw [not_or] at hblank
  split at h
  · cases h
    exact absurd rfl hup
  · rename_i hdots
    exact ⟨hblank.1, hblank.2, hdots⟩

theorem walkStart_parent? (hq : p.parent? = some q) (hne : q.spelling ≠ "") (d : Disk) :
    d.walkStart p = d.walkStart q := by
  rw [walkStart, walkStart, Path.isAbsolute_parent? hq hne]

theorem up_not_mem_parent? (hq : p.parent? = some q) (hup : .up ∉ p.parts) : .up ∉ q.parts := by
  rw [Path.parts_parent? hq]
  exact fun hmem => hup (List.dropLast_subset _ hmem)

/-- In a directory that holds nothing, a path leads to nothing. -/
theorem LeadsToEmpty.not_taken (h : d.LeadsToEmpty q) (hd : d.IsTree) (hq : p.parent? = some q)
    (hup : .up ∉ p.parts) (follow : Bool) (n : Name) (node : Node) :
    d.place follow p ≠ .ok (.taken n node) := by
  intro htaken
  obtain ⟨m, writable, hplace, hempty⟩ := h
  have hne : q.spelling ≠ "" := (walkable_of_place hplace).2.1
  obtain ⟨pieces, more, piece, part, slashes, hpieces, hmore, hpiece, hpart, hsegments⟩ :=
    Path.exists_segments_parent? hq hne
  have hname : IsEntryName piece :=
    isEntryName_of_ofSegment? hpiece fun he => hup (he ▸ hpart)
  rw [place_eq_walk (walkable_of_place htaken), hpieces, walkStart_parent? hq hne] at htaken
  rw [place_eq_walk (walkable_of_place hplace)] at hplace
  -- the walk to the directory
  have hwalk : d.walk true maxLinks (d.walkStart q) pieces = .ok (.taken m (.directory writable)) := by
    rcases hsegments with he | ⟨rfl, he⟩
    · rwa [he] at hplace
    · rw [he, walk_blank (.inl rfl)] at hplace
      exact hplace
  obtain ⟨left, hleft⟩ := walk_from hd (hd.isDirectory_walkStart q) hwalk
  have hslashes : onlySlashes (more ++ piece :: slashes) = false := by
    rw [onlySlashes, List.all_append, List.all_cons, List.isEmpty_eq_false_iff.2 hname.1,
      Bool.false_and, Bool.and_false]
  -- and from there on
  rw [hleft follow _ hslashes, walk_blanks hmore, walk_name hname, hempty, enter] at htaken
  split at htaken
  · cases htaken
  · split at htaken <;> cases htaken

/-! ## Making directories -/

/-- A directory is made where nothing stands, so it holds nothing; or it is there. -/
theorem ensureDirectory_cases (hd : d.Tidy) (h : d.ensureDirectory p = .ok d') :
    (d' = d ∧ d.hasDirectory p = true) ∨ (d.Grown d' ∧ d'.LeadsToEmpty p) := by
  rw [ensureDirectory, makeDirectory] at h
  cases hplace : d.place false p with
  | error fault =>
    rw [hplace] at h
    dsimp only at h
    split at h
    · rename_i hthere
      cases h
      exact .inl ⟨rfl, hthere⟩
    · cases h
  | ok place =>
    rw [hplace] at h
    cases place with
    | taken n node =>
      dsimp only at h
      split at h
      · rename_i hthere
        cases h
        exact .inl ⟨rfl, hthere⟩
      · cases h
    | free parent last slash =>
      cases h
      have hwalkable := walkable_of_place hplace
      have hstart := hd.isDirectory_walkStart p
      rw [place_eq_walk hwalkable] at hplace
      obtain ⟨hparent, hfree⟩ := free_of_walk hd.toIsTree hstart hplace
      refine .inr ⟨Grown.refl.make hparent hfree, parent ++ [last], true, ?_, fun text => ?_⟩
      · rw [place_eq_walk hwalkable, walkStart, here_set, ← walkStart]
        exact walk_at_new hd.toIsTree hstart hplace
      · -- what stood in it would have stood in nothing
        rw [node?_set d (List.concat_ne_nil last parent), if_neg (by simp)]
        cases hnode : d.node? (parent ++ [last] ++ [text]) with
        | none => rfl
        | some node =>
          obtain ⟨writable, hdir⟩ := hd.parent hnode
          rw [hfree] at hdir
          cases hdir

/-- In the directory that has been made for it, a directory is new too. -/
theorem ensureDirectory_in (hd : d.Tidy) (hempty : d.LeadsToEmpty q) (hq : p.parent? = some q)
    (hup : .up ∉ p.parts) (h : d.ensureDirectory p = .ok d') : d'.LeadsToEmpty p := by
  rcases ensureDirectory_cases hd h with ⟨rfl, hthere⟩ | ⟨-, hnew⟩
  · -- it cannot have been there, as nothing is in `q`
    rw [hasDirectory] at hthere
    split at hthere
    · rename_i m writable hfind
      exact absurd (find_eq_ok.1 hfind) (hempty.not_taken hd.toIsTree hq hup true _ _)
    · cases hthere
  · exact hnew

/-- Nothing but directories is made, and what stands stays. If the path does not go up, then either
nothing is changed or the directory that it leads to is new. -/
theorem makeUpTo_cases (hd : d.Tidy) (n : Nat) (p : Path) :
    d.Grown (d.makeUpTo n p).1 ∧
      (.up ∉ p.parts → (d.makeUpTo n p).2 = none →
        (d.makeUpTo n p).1 = d ∨ (d.makeUpTo n p).1.LeadsToEmpty p) := by
  induction n generalizing p with
  | zero => exact ⟨.refl, fun _ h => by cases h⟩
  | succ n ih =>
    rw [makeUpTo]
    split
    · exact ⟨.refl, fun _ _ => .inl rfl⟩
    cases hensure : d.ensureDirectory p with
    | ok d' =>
      rcases ensureDirectory_cases hd hensure with ⟨rfl, -⟩ | ⟨hgrown, hempty⟩
      · exact ⟨.refl, fun _ _ => .inl rfl⟩
      · exact ⟨hgrown, fun _ _ => .inr hempty⟩
    | error fault =>
      cases fault with
      | notFound =>
        dsimp only
        cases hparent : p.parent? with
        | none => exact ⟨.refl, fun _ h => by cases h⟩
        | some parent =>
          -- the directory above is made first, and then this one is tried a second time
          obtain ⟨hgrown, hnew⟩ := ih parent
          dsimp only
          rcases hmake : d.makeUpTo n parent with ⟨d', fault?⟩
          rw [hmake] at hgrown hnew
          cases fault? with
          | some fault => exact ⟨hgrown, fun _ h => by cases h⟩
          | none =>
            dsimp only
            cases hagain : d'.ensureDirectory p with
            | error fault => exact ⟨hgrown, fun _ h => by cases h⟩
            | ok d'' =>
              refine ⟨?_, fun hup _ => ?_⟩
              · rcases ensureDirectory_cases (hgrown.tidy hd) hagain with ⟨rfl, -⟩ | ⟨hgrown', -⟩
                · exact hgrown
                · exact hgrown.trans hgrown'
              · rcases hnew (up_not_mem_parent? hparent hup) rfl with rfl | hempty
                · -- nothing was changed, so the directory cannot be made now either
                  rw [hensure] at hagain
                  cases hagain
                · exact .inr (ensureDirectory_in (hgrown.tidy hd) hempty hparent hup hagain)
      | _ => exact ⟨.refl, fun _ h => by cases h⟩

theorem grown_makeDirectories (hd : d.Tidy) (p : Path) : d.Grown (d.makeDirectories p).1 :=
  (makeUpTo_cases hd _ p).1

/-- What a path leads to, unless it is a link, it leads to through all links. -/
theorem place_true_of_taken (hd : d.IsTree) (h : d.place false p = .ok (.taken n node))
    (hlink : ∀ target, node ≠ .link target) : d.place true p = .ok (.taken n node) := by
  have hwalkable := walkable_of_place h
  rw [place_eq_walk hwalkable] at h ⊢
  have hdir := hd.isDirectory_walkStart p
  generalize maxLinks = links, d.walkStart p = dir, Path.segments p.spelling.toList = pieces at *
  induction links, dir, pieces, hdir using walk_induction hd with
  | nil links dir hdir => rwa [walk] at h ⊢
  | blank links dir piece rest hdir hblank ih =>
    rw [walk_blank hblank] at h ⊢
    exact ih h
  | up links dir rest hdir ih =>
    rw [walk_up] at h ⊢
    exact ih h
  | name links dir piece rest hdir hname ihdir ihlink =>
    obtain ⟨hlong, hpasses⟩ := passes_of_walk hname h
    cases hpasses with
    | free none slashes here => cases here
    | into writable there go =>
      rw [walk_into hname hlong there]
      exact ihdir ⟨writable, there⟩ go
    | file content writable there at_end here =>
      rw [walk_name hname, if_neg hlong, there, at_end, here]
      rfl
    | link target there stays at_end here =>
      cases here
      exact absurd rfl (hlink target)
    | past target left there one_less onward go =>
      subst one_less
      rw [walk_past hname hlong there (.inl rfl)]
      exact ihlink left target rfl go

/-- What a path leads to that leads to nothing through all links is a link. -/
theorem link_of_taken (hd : d.IsTree) (hnone : d.hasEntry p = false)
    (htaken : d.place false p = .ok (.taken n node)) : ∃ target, node = .link target := by
  by_contra hlink
  rw [not_exists] at hlink
  have hfind := find_eq_ok.2 (place_true_of_taken hd htaken hlink)
  rw [hasEntry, hfind] at hnone
  cases hnone

/-- **Making the directory for a path does not make the path lead to a file or a directory**, if it
does not go up. -/
theorem makeDirectories_same (hd : d.Tidy) (hq : p.parent? = some q) (hup : .up ∉ p.parts)
    (hmade : (d.makeDirectories q).2 = none) (hnone : d.hasEntry p = false)
    (htaken : (d.makeDirectories q).1.place false p = .ok (.taken n node)) :
    ∃ target, node = .link target := by
  obtain ⟨hgrown, hnew⟩ := makeUpTo_cases hd (q.parts.length + 1) q
  rw [← makeDirectories] at hgrown hnew
  rcases hnew (up_not_mem_parent? hq hup) hmade with hsame | hempty
  · rw [hsame] at htaken
    exact link_of_taken hd.toIsTree hnone htaken
  · exact absurd htaken (hempty.not_taken (hgrown.tidy hd).toIsTree hq hup false n node)

end PhpRename.Disk
