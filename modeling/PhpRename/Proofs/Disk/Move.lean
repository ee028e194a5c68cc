import PhpRename.Proofs.Disk.Make

/-!
# Moving

A move to where no file and no directory stands gives what is moved a new name, with all that it holds
(`move_cases`). That keeps the disk tidy and loses nothing (`Movable`).

* `Tidy.rewrite`: rewriting a file keeps a disk tidy.
-/

namespace PhpRename.Disk

variable {d d' : Disk} {p source target : Path} {a b : Name} {node : Node} {there? : Option Node}
  {text : String}

/-- The name of what the path leads to, or of what can be put there. -/
def Place.name : Place → Name
  | .taken name _ => name
  | .free directory last _ => directory ++ [last]

/-- What is moved stands under the new name `b`, and no longer under `a`; or the two names are one,
and nothing is changed. -/
def Renamed (d d' : Disk) (a b : Name) : Prop :=
  (a = b ∧ d' = d) ∨ (d.Movable a b ∧ d' = d.relocate a b)

theorem moveOnto_cases (ha : d.node? a = some node) (hparent : d.IsDirectory b.dropLast)
    (hthere : d.node? b = there?) (hclear : ∀ there, there? = some there → ∃ text, there = .link text)
    (h : d.moveOnto a node b there? = .ok d') : d.Renamed d' a b := by
  unfold moveOnto at h
  dsimp only at h
  split at h
  · rename_i he
    cases h
    exact .inl ⟨he, rfl⟩
  split at h
  · cases h
  rename_i hout
  split at h
  · cases h
  rename_i hoff
  have hmovable : d.Movable a b := by
    refine ⟨⟨node, ha⟩, hout, hoff, hparent, fun there hb => ?_⟩
    exact hclear there (hthere.symm.trans hb)
  have hmoved : d' = d.relocate a b := by
    cases there? with
    | none => cases node <;> exact (Except.ok.inj h).symm
    | some there =>
      obtain ⟨text, rfl⟩ := hclear there rfl
      cases node with
      | directory writable => cases h
      | file content writable => exact (Except.ok.inj h).symm
      | link target => exact (Except.ok.inj h).symm
  exact .inr ⟨hmovable, hmoved⟩

theorem ok_of_ite {c : Prop} [Decidable c] {fault : Fault} {result : Except Fault Disk}
    (h : (if c then .error fault else result) = .ok d') : result = .ok d' := by
  split at h
  · cases h
  · exact h

theorem node?_of_place {follow : Bool} (hd : d.IsTree) (h : d.place follow p = .ok (.taken a node)) :
    d.node? a = some node := by
  rw [place_eq_walk (walkable_of_place h)] at h
  exact (node?_of_walk hd (hd.isDirectory_walkStart p) h).1

theorem free_of_place {follow slash : Bool} {dir : Name} {last : String} (hd : d.IsTree)
    (h : d.place follow p = .ok (.free dir last slash)) :
    d.IsDirectory dir ∧ d.node? (dir ++ [last]) = none := by
  rw [place_eq_walk (walkable_of_place h)] at h
  exact free_of_walk hd (hd.isDirectory_walkStart p) h

/-- **What a move does**, if it does not lead to a file or to a directory. -/
theorem move_cases (hd : d.IsTree)
    (hclear : ∀ n there, d.place false target = .ok (.taken n there) → ∃ text, there = .link text)
    (h : d.move source target = .ok d') : ∃ a node place,
      d.place false source = .ok (.taken a node) ∧ d.place false target = .ok place ∧
      d.Renamed d' a place.name := by
  rw [move] at h
  split at h
  · cases h
  · cases h
  rename_i origin goal horigin hgoal
  have hnamed := ok_of_ite h
  split at hnamed
  · cases hnamed
  · -- a link stands there, and lies in a directory like every entry
    rename_i a node b there
    obtain ⟨text, rfl⟩ := hclear b there hgoal
    have hb := node?_of_place hd hgoal
    have hparent : d.IsDirectory b.dropLast := by
      cases b using List.reverseRecOn with
      | nil => cases hb
      | append_singleton dir last =>
        rw [List.dropLast_concat]
        exact hd.parent hb
    have hlink : ∀ there, some (Node.link text) = some there → ∃ text, there = .link text :=
      fun there he => ⟨text, (Option.some.inj he).symm⟩
    exact ⟨a, node, _, horigin, hgoal,
      moveOnto_cases (node?_of_place hd horigin) hparent hb hlink hnamed⟩
  · -- nothing stands there
    rename_i a node dir last slash
    obtain ⟨hdir, hfree⟩ := free_of_place hd hgoal
    have hparent : d.IsDirectory (dir ++ [last]).dropLast := by rwa [List.dropLast_concat]
    exact ⟨a, node, _, horigin, hgoal,
      moveOnto_cases (node?_of_place hd horigin) hparent hfree nofun (ok_of_ite hnamed)⟩

theorem Renamed.tidy (h : d.Renamed d' a b) (hd : d.Tidy) : d'.Tidy := by
  rcases h with ⟨-, rfl⟩ | ⟨hmovable, rfl⟩
  · exact hd
  · exact hmovable.tidy hd

theorem Renamed.contents_eq (h : d.Renamed d' a b) (hd : d.Tidy) : d'.contents = d.contents := by
  rcases h with ⟨-, rfl⟩ | ⟨hmovable, rfl⟩
  · rfl
  · exact hmovable.contents_relocate hd

/-- Rewriting a file puts a file where one stood, or a link, or where nothing stood. -/
theorem Tidy.rewrite (hd : d.Tidy) (h : d.rewrite p text = .ok d') : d'.Tidy := by
  rw [Disk.rewrite] at h
  split at h
  · cases h
  split at h
  · cases h
  split at h
  · cases h
  split at h
  · cases h
  · rename_i n node hfile hplace
    cases h
    have hnode := node?_of_place hd.toIsTree hplace
    have hold : ¬ d.IsDirectory n := by
      rintro ⟨writable, hdir⟩
      rw [hnode] at hdir
      cases hdir
      exact hfile writable rfl
    exact hd.replace hnode hold _
  · rename_i dir last slash hplace
    cases h
    obtain ⟨hdir, hfree⟩ := free_of_place hd.toIsTree hplace
    exact hd.put hdir hfree _
  · cases h

end PhpRename.Disk
