import AqjOs.Rootfs.Confined
import AqjOs.Rootfs.InitChain
import AqjOs.Files.Effects

/-!
# Slots of the rootfs

What a run of the script does to a path depends on what the configuration and
the packages have for it and on what is there.  A slot says what can be there, so
that each command of the script is one change of the node at each path, whatever
the other paths hold.
-/

namespace AqjOs.Rootfs

open AqjOs.Files AqjOs.Shell

/-- What can be at a path below the rootfs. -/
inductive Slot
  | directory
  | file
  | library
  | leaf
  | link (targets : List Target)
  | service
  | getty (there : Bool)
  | free

namespace Slot

/-- The node, or its absence, is possible in the slot. -/
def Admits : Slot → Option (Node String) → Prop
  | directory, node => ∀ present ∈ node, present.isDirectory = true
  | file, node => ∀ present ∈ node, present.isDirectory = false ∧ present.isLink = false
  | library, node => ∀ present ∈ node, present.isDirectory = false ∧ present.isLink = false ∧
      ∀ content mode, present = .file content mode →
        sanitize (sanitize content) = sanitize content
  | leaf, node => ∀ present ∈ node, present.isDirectory = false
  | link targets, node => ∀ present ∈ node, present.isDirectory = false ∧
      ∀ target, present = .link target → target ∈ targets
  | service, node => ∀ present ∈ node, present.isLink = false
  | getty there, node => (∀ present ∈ node, present.isLink = false) ∧
      node.any Node.isDirectory = there
  | free, _ => True

section Changes

variable {node : Option (Node String)}

theorem admits_create (possible : directory.Admits node) (mode : Nat) :
    directory.Admits (Change.create (.directory mode) node) := by
  cases node with
  | none =>
      rintro present ⟨⟩
      rfl
  | some old => exact possible

theorem admits_put (possible : file.Admits node) (content : String) (mode : Nat)
    (change : Nat → Nat) : file.Admits (Change.put content mode change node) := by
  rcases node with _ | (kept | ⟨old, kept⟩ | target)
  · rintro present ⟨⟩
    exact ⟨rfl, rfl⟩
  · exact possible
  · rintro present ⟨⟩
    exact ⟨rfl, rfl⟩
  · exact possible

/-- Slots in which a file may be made executable if there is one. -/
def Executable (slot : Slot) : Prop :=
  slot = directory ∨ slot = file ∨ slot = service

theorem admits_chmod {slot : Slot} (executable : slot.Executable)
    (possible : slot.Admits node) (change : Nat → Nat) :
    slot.Admits (Change.chmod change node) := by
  rcases node with _ | (kept | ⟨old, kept⟩ | target)
  · exact possible
  · exact possible
  · rcases executable with rfl | rfl | rfl
    · have impossible := possible _ rfl
      contradiction
    · rintro present ⟨⟩
      exact ⟨rfl, rfl⟩
    · rintro present ⟨⟩
      rfl
  · exact possible

theorem admits_edit (possible : library.Admits node) :
    library.Admits (Change.edit sanitize node) := by
  rcases node with _ | (kept | ⟨old, kept⟩ | target)
  · exact possible
  · exact possible
  · rintro present ⟨⟩
    refine ⟨rfl, rfl, ?_⟩
    intro content mode same
    obtain ⟨rfl, rfl⟩ := Node.file.inj same
    have stable := (possible _ rfl).2.2 old kept rfl
    rw [stable]
    exact stable
  · exact possible

end Changes

end Slot

/-- FHS directories that the script only makes. -/
def leafDirectories : List Path :=
  [["proc"], ["sys"], ["dev"], ["run"], ["lib"], ["lib64"], ["usr", "bin"], ["usr", "sbin"],
    ["usr", "lib64"], ["mnt"], ["var", "log"], ["var", "run"], ["var", "spool"],
    ["etc", "ld.so.conf.d"]]

/-- The linker scripts that are edited in place. -/
def libraries : List Path :=
  [["usr", "lib", "libc.so"], ["usr", "lib", "libm.so"]]

def currentPath : Path :=
  ["etc", "runit", "runsvdir", "current"]

/-- Where `ln -sf default current` puts its link when `current` leads to a
directory. -/
def loopPath : Path :=
  defaultDirectory ++ ["default"]

def Package.all : List Package :=
  [.glibc, .busybox, .utilLinux, .eudev, .iwd, .dhcpcd, .xbps, .xbpsSrc, .bash, .xorgServer,
    .xfdesktop]

/-- What stays the same from run to run: the project, the host around it, the files
and the packages of the build, and which of the default services that are not
configured are there. -/
structure Setting where
  project : Project
  host : Host
  env : Environment
  manifest : Package → Manifest
  getty : String → Bool

section Slots

variable (setting : Setting)

/-- Whether the packages install a directory or something else at a path. -/
def installedKind (path : Path) : Option Bool :=
  Package.all.findSome? fun package => (setting.manifest package path).map Node.isDirectory

/-- The slot of a path below `/etc/sv`. -/
def serviceSlot (path : Path) : Slot :=
  match setting.env.services.lookup path with
  | some (.directory _) => .directory
  | some (.file _ _) => .file
  | _ =>
      if path ∈ [["getty-tty1"], ["getty-tty2"]] then .getty (setting.getty (path.headD ""))
      else if path ∈ [["iwd", "run"], ["dhcpcd", "run"]] then .file
      else .service

/-- The slot of a path below the rootfs. -/
def slot (path : Path) : Slot :=
  match role path with
  | .directory => .directory
  | .file => .file
  | .link targets => .link targets
  | .service => serviceSlot setting (path.drop 2)
  | .free =>
      if path ∈ leafDirectories then .directory
      else if path ∈ libraries then .library
      else if path = loopPath then .leaf
      else
        match installedKind setting path with
        | some true => .directory
        | some false => .leaf
        | none => .free

end Slots

/-- The tree has its project, the host around it is as given, and every path of
the rootfs holds something possible. -/
structure Fit (setting : Setting) (tree : Host) : Prop where
  reached : tree.holdsDirectory setting.project.path = true
  outside : AgreeOutside setting.project setting.host tree
  admits : ∀ path, (slot setting path).Admits (tree.node (setting.project.rootfs path))

section Equations

variable {setting : Setting} {path : Path}

theorem slot_directory (found : role path = .directory) : slot setting path = .directory := by
  rw [slot, found]

theorem slot_file (found : role path = .file) : slot setting path = .file := by
  rw [slot, found]

theorem slot_link {targets : List Target} (found : role path = .link targets) :
    slot setting path = .link targets := by
  rw [slot, found]

theorem slot_service (name : String) (rest : Path) :
    slot setting ("etc" :: "sv" :: name :: rest) = serviceSlot setting (name :: rest) := by
  rw [slot, role_service]
  rfl

theorem slot_leafDirectory (listed : path ∈ leafDirectories) :
    slot setting path = .directory := by
  have free : ∀ path ∈ leafDirectories, role path = .free := by decide
  rw [slot, free path listed]
  exact if_pos listed

theorem slot_library (listed : path ∈ libraries) : slot setting path = .library := by
  have free : ∀ path ∈ libraries, role path = .free ∧ path ∉ leafDirectories := by decide
  obtain ⟨found, other⟩ := free path listed
  rw [slot, found]
  simp only [if_neg other, if_pos listed]

theorem slot_loop : slot setting loopPath = .leaf := by
  have free : role loopPath = .free := by decide
  have notLeaf : loopPath ∉ leafDirectories := by decide
  have notLibrary : loopPath ∉ libraries := by decide
  rw [slot, free]
  simp only [if_neg notLeaf, if_neg notLibrary, if_true]

end Equations

section Fits

variable {setting : Setting} {tree : Host} {path : Path}

/-- What a slot admits fits the role of its path. -/
theorem fits_of_admits {node : Node String} (admits : (slot setting path).Admits (some node)) :
    (role path).Fits node := by
  unfold slot at admits
  cases found : role path with
  | directory =>
      rw [found] at admits
      exact admits node rfl
  | file =>
      rw [found] at admits
      exact admits node rfl
  | link targets =>
      rw [found] at admits
      exact (admits node rfl).2
  | service =>
      rw [found] at admits
      simp only [serviceSlot] at admits
      split at admits
      · have directory := admits node rfl
        cases node <;> simp_all [Node.isDirectory, Node.isLink, Role.Fits]
      · exact (admits node rfl).2
      · split at admits
        · exact admits.1 node rfl
        · split at admits
          · exact (admits node rfl).2
          · exact admits node rfl
  | free => trivial

theorem Fit.tame (fit : Fit setting tree) : Tame setting.project tree := by
  refine ⟨fit.reached, ?_⟩
  intro path node there
  have admits := fit.admits path
  rw [there] at admits
  exact fits_of_admits admits

theorem Fit.directory_cases (fit : Fit setting tree) (directory : slot setting path = .directory) :
    tree.node (setting.project.rootfs path) = none ∨
      tree.holdsDirectory (setting.project.rootfs path) = true := by
  have admits := fit.admits path
  rw [directory] at admits
  cases found : tree.node (setting.project.rootfs path) with
  | none => exact .inl rfl
  | some node =>
      right
      rw [LinkTree.holdsDirectory, found]
      exact admits node found

/-- Nothing or a regular file is at the path. -/
def HoldsFileAtMost (tree : Host) (place : Path) : Prop :=
  tree.node place = none ∨ ∃ content mode, tree.node place = some (.file content mode)

theorem Fit.file_cases (fit : Fit setting tree)
    (file : slot setting path = .file ∨ slot setting path = .library) :
    HoldsFileAtMost tree (setting.project.rootfs path) := by
  have admits := fit.admits path
  rcases found : tree.node (setting.project.rootfs path) with _ | (mode | ⟨content, mode⟩ | target)
  · exact .inl found
  · rcases file with file | file
    · rw [file] at admits
      have impossible := (admits _ found).1
      contradiction
    · rw [file] at admits
      have impossible := (admits _ found).1
      contradiction
  · exact .inr ⟨content, mode, found⟩
  · rcases file with file | file
    · rw [file] at admits
      have impossible := (admits _ found).2
      contradiction
    · rw [file] at admits
      have impossible := (admits _ found).2.1
      contradiction

end Fits

end AqjOs.Rootfs
