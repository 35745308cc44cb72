import AqjOs.Files.LinkTree
import AqjOs.Shell.Script

/-!
# File commands on trees with links

The commands a build script uses, as functions on trees: `mkdir -p`, `chmod`,
`cp -f`, `cp -r`, `ln -sf`, `sed -i`, `find … -exec chmod` and redirection.
Each says where it follows links and what it does when the destination is
already there; where it is undefined the command fails and changes nothing.
`Writes` bounds the nodes that a command may leave behind.
-/

namespace AqjOs.Files

open AqjOs.Shell

universe u

variable {κ : Type u}

namespace Node

/-- Change the mode of a regular file only. -/
def withFileMode (change : Nat → Nat) : Node κ → Node κ
  | file content mode => file content (change mode)
  | other => other

@[simp]
theorem isDirectory_withFileMode (change : Nat → Nat) (node : Node κ) :
    (node.withFileMode change).isDirectory = node.isDirectory := by
  cases node <;> rfl

end Node

namespace LinkTree

/-! ## The commands -/

/-- One directory of `mkdir -p`: a directory, also one behind links, is left
alone, and anything else in its place is in the way. -/
def makeDirectory (mode : Nat) (path : Path) (tree : LinkTree κ) : Option (LinkTree κ) :=
  if tree.isDirectory path then some tree
  else
    (tree.locate path).bind fun place =>
      if (tree.node place).isNone then tree.set place (.directory mode) else none

/-- `mkdir -p path…`.  Below a name that could not be made nothing can. -/
def mkdirs (mode : Nat) (paths : List Path) : Command (LinkTree κ) :=
  .each ((paths.flatMap fun path => path.inits.tail).map fun path =>
    .ofOption (makeDirectory mode path))

/-- `chmod` of one operand, through links. -/
def chmod (change : Nat → Nat) (path : Path) (tree : LinkTree κ) : Option (LinkTree κ) :=
  (tree.resolve path).bind fun place =>
    (tree.node place).bind fun node => tree.set place (node.withMode change)

/-- `chmod` of several operands. -/
def chmods (change : Nat → Nat) (paths : List Path) : Command (LinkTree κ) :=
  .each (paths.map fun path => .ofOption (chmod change path))

/-- `> path`: links are followed, also to a file that is still to be created, and
a file that is there keeps its mode. -/
def writeFile (content : κ) (mode : Nat) (path : Path) (tree : LinkTree κ) :
    Option (LinkTree κ) :=
  (tree.resolve path).bind fun place =>
    match tree.node place with
    | none => tree.set place (.file content mode)
    | some (.file _ kept) => tree.set place (.file content kept)
    | _ => none

/-- The path is a link to something that is not there. -/
def dangling (tree : LinkTree κ) (path : Path) : Bool :=
  (tree.locate path).any tree.holdsLink &&
    (tree.resolve path).any fun place => (tree.node place).isNone

/-- Copy a regular file to exactly this path; `cp` does not write through a
dangling link. -/
def overwrite (content : κ) (mode : Nat) (path : Path) (tree : LinkTree κ) :
    Option (LinkTree κ) :=
  if tree.dangling path then none else tree.writeFile content mode path

/-- `cp -f source path`: into the directory that the path leads to, if it does. -/
def copyTo (content : κ) (mode : Nat) (name : String) (path : Path) (tree : LinkTree κ) :
    Option (LinkTree κ) :=
  if tree.isDirectory path then tree.overwrite content mode (path ++ [name])
  else tree.overwrite content mode path

/-- `cp -f source path/`: the path has to lead to a directory. -/
def copyInto (content : κ) (mode : Nat) (name : String) (path : Path) (tree : LinkTree κ) :
    Option (LinkTree κ) :=
  if tree.isDirectory path then tree.overwrite content mode (path ++ [name]) else none

/-- Where `ln -sf target path` puts its link: inside the directory that the path
leads to, if it does, and otherwise in the place of the path itself. -/
def linkPath (target : Target) (path : Path) (tree : LinkTree κ) : Path :=
  if tree.isDirectory path then path ++ [target.basename] else path

/-- `ln -sf target path`. -/
def symlink (target : Target) (path : Path) (tree : LinkTree κ) : Option (LinkTree κ) :=
  (tree.locate (tree.linkPath target path)).bind fun place => tree.set place (.link target)

/-- `sed -i`: a new file takes the place of the path, which may be a link, with
the edited content and the mode of the file that was read. -/
def editInPlace (edit : κ → κ) (path : Path) (tree : LinkTree κ) : Option (LinkTree κ) :=
  (tree.fileAt path).bind fun file =>
    (tree.locate path).bind fun place => tree.set place (.file (edit file.1) file.2)

/-- Change the mode of the selected regular files. -/
def mapFiles (selected : Path → Bool) (change : Nat → Nat) (tree : LinkTree κ) : LinkTree κ where
  node path :=
    if selected path then (tree.node path).map (Node.withFileMode change) else tree.node path
  root := by
    split
    · rw [Option.any_map]
      simpa [Function.comp_def] using tree.root
    · exact tree.root
  closed := by
    intro path name present
    have there : tree.node (path ++ [name]) ≠ none := by
      intro missing
      rw [missing] at present
      simp at present
    have directory := tree.closed path name there
    split
    · rw [Option.any_map]
      simpa [Function.comp_def] using directory
    · exact directory

/-- `find path -type f -name name -exec chmod`, which follows no link below the
parent of the path. -/
def chmodFound (name : String) (change : Nat → Nat) (path : Path) (tree : LinkTree κ) :
    Option (LinkTree κ) :=
  (tree.locate path).map fun start =>
    tree.mapFiles (fun other => start.isPrefixOf other && other.getLast? == some name) change

/-- One entry of `cp -r`.  A directory is merged into a directory, a file is
written through a link to a file, a link takes the place of anything but a
directory, and nothing is copied into what is not itself a directory. -/
def copyEntry (base : Path) (entry : Path × Node κ) (tree : LinkTree κ) : Option (LinkTree κ) :=
  if tree.holdsDirectory (base ++ entry.1).dropLast then
    match entry.2 with
    | .directory mode =>
        match tree.node (base ++ entry.1) with
        | none => tree.set (base ++ entry.1) (.directory mode)
        | some (.directory _) => some tree
        | _ => none
    | .file content mode => tree.overwrite content mode (base ++ entry.1)
    | .link target => tree.set (base ++ entry.1) (.link target)
  else none

/-- `cp -r … path/` of entries listed in the order in which they are copied. -/
def copyTree (entries : List (Path × Node κ)) (path : Path) : Command (LinkTree κ) :=
  fun tree =>
    match (tree.resolve path).filter tree.holdsDirectory with
    | some base => Command.each (entries.map fun entry => .ofOption (copyEntry base entry)) tree
    | none => (.failure, tree)

/-! ## What a command may write -/

/-- Every node that differs afterwards is one of the allowed ones. -/
def Writes (allowed : Path → Node κ → Prop) (before after : LinkTree κ) : Prop :=
  ∀ path, after.node path = before.node path ∨
    ∃ node, after.node path = some node ∧ allowed path node

namespace Writes

variable {allowed allowed' : Path → Node κ → Prop} {first second third : LinkTree κ}

theorem refl (tree : LinkTree κ) : Writes allowed tree tree :=
  fun _ => .inl rfl

theorem trans (early : Writes allowed first second) (late : Writes allowed second third) :
    Writes allowed first third := by
  intro path
  rcases late path with same | written
  · rw [same]
    exact early path
  · exact .inr written

theorem mono (writes : Writes allowed first second)
    (weaker : ∀ path node, allowed path node → allowed' path node) :
    Writes allowed' first second := by
  intro path
  rcases writes path with same | ⟨node, there, holds⟩
  · exact .inl same
  · exact .inr ⟨node, there, weaker path node holds⟩

end Writes

variable {tree next : LinkTree κ} {path : Path}

theorem writes_set {new : Node κ} (placed : tree.set path new = some next) :
    Writes (fun place node => place = path ∧ node = new) tree next := by
  intro other
  rw [node_set placed]
  by_cases same : other = path
  · rw [if_pos same]
    exact .inr ⟨new, rfl, same, rfl⟩
  · rw [if_neg same]
    exact .inl rfl

theorem writes_makeDirectory {mode : Nat} (made : tree.makeDirectory mode path = some next) :
    Writes (fun place node => tree.locate path = some place ∧ node = .directory mode)
      tree next := by
  unfold makeDirectory at made
  split at made
  · cases made
    exact Writes.refl tree
  · obtain ⟨place, located, made⟩ := Option.bind_eq_some_iff.mp made
    split at made
    · apply (writes_set made).mono
      rintro other node ⟨rfl, rfl⟩
      exact ⟨located, rfl⟩
    · contradiction

theorem writes_chmod {change : Nat → Nat} (changed : tree.chmod change path = some next) :
    Writes (fun place node => tree.resolve path = some place ∧
      ∃ old, tree.node place = some old ∧ node = old.withMode change) tree next := by
  obtain ⟨place, resolved, changed⟩ := Option.bind_eq_some_iff.mp changed
  obtain ⟨old, there, changed⟩ := Option.bind_eq_some_iff.mp changed
  apply (writes_set changed).mono
  rintro other node ⟨rfl, rfl⟩
  exact ⟨resolved, old, there, rfl⟩

theorem writes_writeFile {content : κ} {mode : Nat}
    (written : tree.writeFile content mode path = some next) :
    Writes (fun place node => tree.resolve path = some place ∧
      ∃ mode, node = .file content mode) tree next := by
  obtain ⟨place, resolved, written⟩ := Option.bind_eq_some_iff.mp written
  split at written
  · apply (writes_set written).mono
    rintro other node ⟨rfl, rfl⟩
    exact ⟨resolved, mode, rfl⟩
  · rename_i kept _
    apply (writes_set written).mono
    rintro other node ⟨rfl, rfl⟩
    exact ⟨resolved, kept, rfl⟩
  · contradiction

theorem writes_overwrite {content : κ} {mode : Nat}
    (written : tree.overwrite content mode path = some next) :
    Writes (fun place node => tree.resolve path = some place ∧
      ∃ mode, node = .file content mode) tree next := by
  unfold overwrite at written
  split at written
  · contradiction
  · exact writes_writeFile written

theorem writes_symlink {target : Target} (linked : tree.symlink target path = some next) :
    Writes (fun place node => tree.locate (tree.linkPath target path) = some place ∧
      node = .link target) tree next := by
  obtain ⟨place, located, linked⟩ := Option.bind_eq_some_iff.mp linked
  apply (writes_set linked).mono
  rintro other node ⟨rfl, rfl⟩
  exact ⟨located, rfl⟩

theorem writes_editInPlace {edit : κ → κ} (edited : tree.editInPlace edit path = some next) :
    Writes (fun place node => tree.locate path = some place ∧
      ∃ content mode, node = .file content mode) tree next := by
  obtain ⟨file, _, edited⟩ := Option.bind_eq_some_iff.mp edited
  obtain ⟨place, located, edited⟩ := Option.bind_eq_some_iff.mp edited
  apply (writes_set edited).mono
  rintro other node ⟨rfl, rfl⟩
  exact ⟨located, _, _, rfl⟩

theorem writes_chmodFound {name : String} {change : Nat → Nat}
    (changed : tree.chmodFound name change path = some next) :
    Writes (fun place node => (∃ start, tree.locate path = some start ∧ start <+: place) ∧
      ∃ old, tree.node place = some old ∧ node = old.withFileMode change) tree next := by
  obtain ⟨start, located, rfl⟩ := Option.map_eq_some_iff.mp changed
  intro place
  simp only [mapFiles]
  split
  · rename_i selected
    cases there : tree.node place with
    | none => exact .inl rfl
    | some old =>
        have below : start <+: place := by simpa using (Bool.and_eq_true_iff.mp selected).1
        exact .inr ⟨old.withFileMode change, rfl, ⟨start, located, below⟩, old, rfl, rfl⟩
  · exact .inl rfl

theorem writes_copyEntry {base : Path} {entry : Path × Node κ}
    (copied : tree.copyEntry base entry = some next) :
    Writes (fun place node => tree.holdsDirectory (base ++ entry.1).dropLast = true ∧
      (place = base ++ entry.1 ∧ node = entry.2 ∨
        tree.resolve (base ++ entry.1) = some place ∧
          ∃ content kept mode, entry.2 = .file content kept ∧ node = .file content mode))
      tree next := by
  rcases entry with ⟨path, source⟩
  unfold copyEntry at copied
  split at copied
  · rename_i parent
    cases source with
    | directory mode =>
        simp only at copied
        split at copied
        · apply (writes_set copied).mono
          rintro other node ⟨rfl, rfl⟩
          exact ⟨parent, .inl ⟨rfl, rfl⟩⟩
        · cases copied
          exact Writes.refl tree
        · contradiction
    | file content mode =>
        apply (writes_overwrite copied).mono
        rintro other node ⟨resolved, written, rfl⟩
        exact ⟨parent, .inr ⟨resolved, content, mode, written, rfl, rfl⟩⟩
    | link target =>
        apply (writes_set copied).mono
        rintro other node ⟨rfl, rfl⟩
        exact ⟨parent, .inl ⟨rfl, rfl⟩⟩
  · contradiction

/-! ## Commands whose operand means itself -/

section Here

variable (plain : ∀ name ∈ path, Plain name) (proper : path ≠ [])
  (parent : tree.holdsDirectory path.dropLast = true)

include plain proper parent

theorem makeDirectory_missing (mode : Nat) (missing : tree.node path = none) :
    tree.makeDirectory mode path = tree.set path (.directory mode) := by
  have unlinked : tree.holdsLink path = false := by simp [holdsLink, missing]
  have notDirectory : tree.isDirectory path = false := by
    simp [isDirectory, resolve_here plain proper parent unlinked, holdsDirectory, missing]
  simp [makeDirectory, notDirectory, locate_here plain proper parent, missing]

theorem chmod_here (change : Nat → Nat) {node : Node κ} (there : tree.node path = some node)
    (unlinked : node.isLink = false) :
    tree.chmod change path = tree.set path (node.withMode change) := by
  have notLink : tree.holdsLink path = false := by simp [holdsLink, there, unlinked]
  simp [chmod, resolve_here plain proper parent notLink, there]

theorem writeFile_missing (content : κ) (mode : Nat) (missing : tree.node path = none) :
    tree.writeFile content mode path = tree.set path (.file content mode) := by
  have unlinked : tree.holdsLink path = false := by simp [holdsLink, missing]
  simp [writeFile, resolve_here plain proper parent unlinked, missing]

theorem writeFile_file (content : κ) (mode : Nat) {old : κ} {kept : Nat}
    (there : tree.node path = some (.file old kept)) :
    tree.writeFile content mode path = tree.set path (.file content kept) := by
  have unlinked : tree.holdsLink path = false := by simp [holdsLink, there, Node.isLink]
  simp [writeFile, resolve_here plain proper parent unlinked, there]

theorem overwrite_here (content : κ) (mode : Nat) (unlinked : tree.holdsLink path = false) :
    tree.overwrite content mode path = tree.writeFile content mode path := by
  simp [overwrite, dangling, locate_here plain proper parent, unlinked]

theorem symlink_here (target : Target) (notDirectory : tree.isDirectory path = false) :
    tree.symlink target path = tree.set path (.link target) := by
  simp [symlink, linkPath, notDirectory, locate_here plain proper parent]

theorem isFile_here (unlinked : tree.holdsLink path = false) :
    tree.isFile path =
      match tree.node path with
      | some (.file _ _) => true
      | _ => false := by
  rw [isFile, fileAt, resolve_here plain proper parent unlinked, Option.bind_some]
  rcases tree.node path with _ | (mode | ⟨content, mode⟩ | target) <;> rfl

theorem editInPlace_here (edit : κ → κ) {content : κ} {mode : Nat}
    (there : tree.node path = some (.file content mode)) :
    tree.editInPlace edit path = tree.set path (.file (edit content) mode) := by
  have unlinked : tree.holdsLink path = false := by simp [holdsLink, there, Node.isLink]
  simp [editInPlace, fileAt, resolve_here plain proper parent unlinked, there,
    locate_here plain proper parent]

end Here

/-! ## Links that no command makes -/

/-- The command leaves no link with this target where there was none. -/
def MakesNoLink (target : Target) (command : Command (LinkTree κ)) : Prop :=
  ∀ tree path, (command tree).2.node path = some (.link target) →
    tree.node path = some (.link target)

namespace MakesNoLink

variable {target : Target}

theorem ofOption {effect : LinkTree κ → Option (LinkTree κ)}
    (writes : ∀ tree next, effect tree = some next →
      Writes (fun place node => node = .link target → tree.node place = some (.link target))
        tree next) :
    MakesNoLink target (.ofOption effect) := by
  intro tree path
  apply Command.ofOption_snd fun next : LinkTree κ =>
    next.node path = some (.link target) → tree.node path = some (.link target)
  · exact id
  · intro next defined present
    rcases writes tree next defined path with same | ⟨node, there, old⟩
    · rw [← same]
      exact present
    · rw [there] at present
      exact old (Option.some.inj present)

theorem each {commands : List (Command (LinkTree κ))}
    (none : ∀ command ∈ commands, MakesNoLink target command) :
    MakesNoLink target (.each commands) := by
  intro tree path
  have unlinked : ¬ tree.node path = some (.link target) →
      ¬ (Command.each commands tree).2.node path = some (.link target) := by
    apply Command.each_snd fun next : LinkTree κ => ¬ next.node path = some (.link target)
    intro command member state absent present
    exact absent (none command member state path present)
  contrapose
  exact unlinked

theorem mkdirs (mode : Nat) (paths : List Path) :
    MakesNoLink target (LinkTree.mkdirs mode paths : Command (LinkTree κ)) := by
  apply each
  intro command member
  obtain ⟨path, _, rfl⟩ := List.mem_map.mp member
  apply ofOption
  intro tree next made
  apply (writes_makeDirectory made).mono
  rintro place node ⟨_, rfl⟩ isLink
  contradiction

theorem chmods (change : Nat → Nat) (paths : List Path) :
    MakesNoLink target (LinkTree.chmods change paths : Command (LinkTree κ)) := by
  apply each
  intro command member
  obtain ⟨path, _, rfl⟩ := List.mem_map.mp member
  apply ofOption
  intro tree next changed
  apply (writes_chmod changed).mono
  rintro place node ⟨_, old, there, rfl⟩ isLink
  cases old with
  | directory mode => contradiction
  | file content mode => contradiction
  | link text => rw [there, ← isLink, Node.withMode]

theorem overwritten (content : κ) (mode : Nat) (path : Path) {tree next : LinkTree κ}
    (written : tree.overwrite content mode path = some next) :
    Writes (fun place node => node = .link target → tree.node place = some (.link target))
      tree next := by
  apply (writes_overwrite written).mono
  rintro place node ⟨_, kept, rfl⟩ isLink
  contradiction

theorem copyTo (content : κ) (mode : Nat) (name : String) (path : Path) :
    MakesNoLink target (.ofOption (LinkTree.copyTo content mode name path)) := by
  apply ofOption
  intro tree next copied
  unfold LinkTree.copyTo at copied
  split at copied
  · exact overwritten _ _ _ copied
  · exact overwritten _ _ _ copied

theorem editInPlace (edit : κ → κ) (path : Path) :
    MakesNoLink target (.ofOption (LinkTree.editInPlace edit path)) := by
  apply ofOption
  intro tree next edited
  apply (writes_editInPlace edited).mono
  rintro place node ⟨_, content, mode, rfl⟩ isLink
  contradiction

theorem symlink {other : Target} (different : other ≠ target) (path : Path) :
    MakesNoLink target (.ofOption (LinkTree.symlink other path : LinkTree κ → _)) := by
  apply ofOption
  intro tree next linked
  apply (writes_symlink linked).mono
  rintro place node ⟨_, rfl⟩ isLink
  exact absurd (Node.link.inj isLink) different

theorem copyTree {entries : List (Path × Node κ)}
    (none : ∀ entry ∈ entries, entry.2 ≠ .link target) (path : Path) :
    MakesNoLink target (LinkTree.copyTree entries path) := by
  intro tree other
  unfold LinkTree.copyTree
  split
  · apply each
    intro command member
    obtain ⟨entry, listed, rfl⟩ := List.mem_map.mp member
    apply ofOption
    intro tree next copied
    apply (writes_copyEntry copied).mono
    rintro place node ⟨_, ⟨_, rfl⟩ | ⟨_, content, kept, mode, _, rfl⟩⟩ isLink
    · exact absurd isLink (none entry listed)
    · contradiction
  · exact id

end MakesNoLink

end LinkTree

end AqjOs.Files
