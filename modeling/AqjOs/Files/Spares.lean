import AqjOs.Files.Archive

/-!
# What commands leave standing

Most file commands destroy nothing: a link stays what it is, and a file stays a
file and keeps the bits of its mode that matter.  The exceptions are the commands
that put something in the place of what is there, and they do so only under the
last name of an operand.
-/

namespace AqjOs.Files

open AqjOs.Shell

universe u

namespace LinkTree

variable {κ : Type u}

/-- A regular file with a good mode stands at the path itself. -/
def HoldsFile (good : Nat → Prop) (tree : LinkTree κ) (path : Path) : Prop :=
  ∃ content mode, tree.node path = some (.file content mode) ∧ good mode

/-- The command leaves a link at the path as it is, and a file with a good mode a
file with a good mode. -/
structure Spares (good : Nat → Prop) (path : Path) (command : Command (LinkTree κ)) : Prop where
  link : ∀ tree target, tree.node path = some (.link target) →
    (command tree).2.node path = some (.link target)
  file : ∀ tree, HoldsFile good tree path → HoldsFile good (command tree).2 path

/-- What a node may become where nothing is destroyed. -/
def Heir (good : Nat → Prop) (old : Option (Node κ)) (new : Node κ) : Prop :=
  (∀ target, old = some (.link target) → new = .link target) ∧
    ∀ content mode, old = some (.file content mode) → good mode →
      ∃ content' mode', new = .file content' mode' ∧ good mode'

section Heirs

variable {good : Nat → Prop}

theorem heir_of_none (new : Node κ) : Heir good none new :=
  ⟨fun _ => nofun, fun _ _ => nofun⟩

theorem heir_of_file {content content' : κ} {mode mode' : Nat}
    (improved : good mode → good mode') :
    Heir good (some (.file content mode)) (.file content' mode') := by
  refine ⟨fun _ => nofun, ?_⟩
  rintro other kept ⟨⟩ isGood
  exact ⟨content', mode', rfl, improved isGood⟩

theorem heir_of_directory (mode : Nat) (new : Node κ) :
    Heir good (some (.directory mode)) new :=
  ⟨fun _ => nofun, fun _ _ => nofun⟩

end Heirs

namespace Spares

variable {good : Nat → Prop} {path : Path}

theorem ofOption {effect : LinkTree κ → Option (LinkTree κ)}
    (heirs : ∀ tree next, effect tree = some next →
      Writes (fun place node => place = path → Heir good (tree.node place) node) tree next) :
    Spares good path (.ofOption effect) := by
  constructor
  · intro tree target there
    apply Command.ofOption_snd fun next : LinkTree κ => next.node path = some (.link target)
    · exact there
    · intro next defined
      rcases heirs tree next defined path with same | ⟨node, placed, heir⟩
      · rw [same, there]
      · rw [placed, (heir rfl).1 target there]
  · rintro tree ⟨content, mode, there, isGood⟩
    apply Command.ofOption_snd fun next : LinkTree κ => HoldsFile good next path
    · exact ⟨content, mode, there, isGood⟩
    · intro next defined
      rcases heirs tree next defined path with same | ⟨node, placed, heir⟩
      · exact ⟨content, mode, same.trans there, isGood⟩
      · obtain ⟨content', mode', rfl, better⟩ := (heir rfl).2 content mode there isGood
        exact ⟨content', mode', placed, better⟩

theorem each {commands : List (Command (LinkTree κ))}
    (spares : ∀ command ∈ commands, Spares good path command) :
    Spares good path (.each commands) := by
  constructor
  · intro tree target there
    apply Command.each_snd (fun next : LinkTree κ => next.node path = some (.link target)) _ there
    exact fun command member state => (spares command member).link state target
  · intro tree there
    apply Command.each_snd (fun next : LinkTree κ => HoldsFile good next path) _ there
    exact fun command member state => (spares command member).file state

/-- A command that leaves the node of the path alone. -/
theorem of_same {command : Command (LinkTree κ)}
    (same : ∀ tree, (command tree).2.node path = tree.node path) : Spares good path command := by
  constructor
  · intro tree target there
    rw [same, there]
  · rintro tree ⟨content, mode, there, isGood⟩
    exact ⟨content, mode, (same tree).trans there, isGood⟩

theorem mkdirs (mode : Nat) (paths : List Path) :
    Spares good path (LinkTree.mkdirs mode paths : Command (LinkTree κ)) := by
  apply each
  intro command member
  obtain ⟨above, _, rfl⟩ := List.mem_map.mp member
  apply ofOption
  intro tree next made
  unfold makeDirectory at made
  split at made
  · cases made
    exact Writes.refl tree
  · obtain ⟨place, _, made⟩ := Option.bind_eq_some_iff.mp made
    split at made
    · rename_i missing
      rw [Option.isNone_iff_eq_none] at missing
      apply (writes_set made).mono
      rintro other node ⟨rfl, rfl⟩ _
      rw [missing]
      exact heir_of_none _
    · contradiction

theorem chmods {change : Nat → Nat} (improves : ∀ mode, good mode → good (change mode))
    (paths : List Path) :
    Spares good path (LinkTree.chmods change paths : Command (LinkTree κ)) := by
  apply each
  intro command member
  obtain ⟨operand, _, rfl⟩ := List.mem_map.mp member
  apply ofOption
  intro tree next changed
  apply (writes_chmod changed).mono
  rintro place node ⟨_, old, there, rfl⟩ _
  rw [there]
  cases old with
  | directory mode => exact heir_of_directory mode _
  | file content mode => exact heir_of_file (improves mode)
  | link target => exact ⟨fun other same => Option.some.inj same, fun _ _ => nofun⟩

/-- A file is written in the place of a file or of nothing. -/
theorem writes_writeFile {content : κ} {mode : Nat} {written : Path} {tree next : LinkTree κ}
    (defined : tree.writeFile content mode written = some next) :
    Writes (fun place node => Heir good (tree.node place) node) tree next := by
  obtain ⟨place, _, defined⟩ := Option.bind_eq_some_iff.mp defined
  split at defined
  · rename_i missing
    apply (writes_set defined).mono
    rintro other node ⟨rfl, rfl⟩
    rw [missing]
    exact heir_of_none _
  · rename_i there
    apply (writes_set defined).mono
    rintro other node ⟨rfl, rfl⟩
    rw [there]
    exact heir_of_file id
  · contradiction

theorem writes_overwrite {content : κ} {mode : Nat} {written : Path} {tree next : LinkTree κ}
    (defined : tree.overwrite content mode written = some next) :
    Writes (fun place node => Heir good (tree.node place) node) tree next := by
  unfold overwrite at defined
  split at defined
  · contradiction
  · exact writes_writeFile defined

theorem copyTo (content : κ) (mode : Nat) (name : String) (destination : Path) :
    Spares good path (.ofOption (LinkTree.copyTo content mode name destination)) := by
  apply ofOption
  intro tree next copied
  unfold LinkTree.copyTo at copied
  split at copied
  · exact (writes_overwrite copied).mono fun _ _ heir _ => heir
  · exact (writes_overwrite copied).mono fun _ _ heir _ => heir

theorem copyTree {entries : List (Path × Node κ)}
    (linkless : ∀ entry ∈ entries, entry.2.isLink = false) (destination : Path) :
    Spares good path (LinkTree.copyTree entries destination) := by
  have eachEntry (base : Path) : Spares good path
      (.each (entries.map fun entry => .ofOption (copyEntry base entry))) := by
    apply each
    intro command member
    obtain ⟨⟨inner, source⟩, listed, rfl⟩ := List.mem_map.mp member
    apply ofOption
    intro tree next copied
    unfold copyEntry at copied
    split at copied
    · cases source with
      | directory mode =>
          simp only at copied
          split at copied
          · rename_i missing
            apply (writes_set copied).mono
            rintro other node ⟨rfl, rfl⟩ _
            rw [missing]
            exact heir_of_none _
          · cases copied
            exact Writes.refl tree
          · contradiction
      | file content mode => exact (writes_overwrite copied).mono fun _ _ heir _ => heir
      | link target =>
          have impossible := linkless _ listed
          contradiction
    · contradiction
  constructor
  · intro tree
    unfold LinkTree.copyTree
    split
    · exact (eachEntry _).link tree
    · exact fun _ there => there
  · intro tree
    unfold LinkTree.copyTree
    split
    · exact (eachEntry _).file tree
    · exact id

/-! ## Commands that replace -/

/-- The place of a path has its last name. -/
theorem getLast?_of_locate {tree : LinkTree κ} {operand place : Path}
    (located : tree.locate operand = some place) : place.getLast? = operand.getLast? := by
  obtain ⟨name, last, located⟩ := Option.bind_eq_some_iff.mp located
  obtain ⟨parent, _, located⟩ := Option.bind_eq_some_iff.mp located
  split at located
  · rw [← Option.some.inj located, List.getLast?_concat, last]
  · contradiction

theorem symlink {target : Target} {operand : Path}
    (apart : path.getLast? ≠ operand.getLast? ∧ path.getLast? ≠ some target.basename) :
    Spares good path (.ofOption (LinkTree.symlink target operand : LinkTree κ → _)) := by
  apply ofOption
  intro tree next linked
  apply (writes_symlink linked).mono
  rintro place node ⟨located, rfl⟩ rfl
  have last := getLast?_of_locate located
  unfold linkPath at last
  split at last
  · rw [List.getLast?_concat] at last
    exact absurd last apart.2
  · exact absurd last apart.1

theorem editInPlace {edit : κ → κ} {operand : Path}
    (apart : path.getLast? ≠ operand.getLast?) :
    Spares good path (.ofOption (LinkTree.editInPlace edit operand)) := by
  apply ofOption
  intro tree next edited
  apply (writes_editInPlace edited).mono
  rintro place node ⟨located, _⟩ rfl
  exact absurd (getLast?_of_locate located) apart

/-- Below a name that the path does not have, nothing of it is removed. -/
theorem removeAll {name : String} {above : Path} (absent : name ∉ path) (ok : Bool)
    (keep : Path → Bool) :
    Spares good path (LinkTree.removeAll ok keep (above ++ [name]) : Command (LinkTree κ)) := by
  apply of_same
  intro tree
  unfold LinkTree.removeAll
  split
  · rfl
  · split
    · rename_i place located
      apply node_remove_outside
      rintro ⟨rest, rfl⟩
      have last := getLast?_of_locate located
      rw [List.getLast?_concat] at last
      apply absent
      exact List.mem_append_left _ (List.mem_of_getLast? last)
    · rfl

end Spares

end LinkTree

end AqjOs.Files
