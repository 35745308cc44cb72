import AqjOs.Rootfs.Populate

/-!
# The layout of a rootfs

The script writes through directories, files and links that earlier runs and the
packages have left behind.  A tree is laid out well when the directories it
writes through are real directories, the files it writes are regular files,
there is no link among the services, and the links it replaces are its own or
those of BusyBox.  In such a tree every path of the script means itself.
-/

namespace AqjOs.Rootfs

open AqjOs.Files AqjOs.Shell

/-- What may stand at a path below the rootfs. -/
inductive Role
  | directory
  | file
  | link (targets : List Target)
  | service
  | free
  deriving DecidableEq, Repr

namespace Role

/-- The node may stand at a path with this role. -/
def Fits : Role → Node String → Prop
  | directory, node => node.isDirectory = true
  | file, node => node.isDirectory = false ∧ node.isLink = false
  | link targets, node => ∀ target, node = .link target → target ∈ targets
  | service, node => node.isLink = false
  | free, _ => True

/-- No link stands at a path with this role. -/
def unlinked : Role → Bool
  | directory => true
  | file => true
  | link _ => false
  | service => true
  | free => false

/-- A link with this target may stand at a path with this role. -/
def allows : Role → Target → Bool
  | link targets, target => targets.contains target
  | free, _ => true
  | _, _ => false

theorem fits_of_allows {role : Role} {target : Target} (allowed : role.allows target = true) :
    role.Fits (.link target) := by
  cases role with
  | link targets =>
      rintro other ⟨⟩
      simpa [allows] using allowed
  | free => trivial
  | directory => contradiction
  | file => contradiction
  | service => contradiction

theorem Fits.isLink {role : Role} {node : Node String} (fits : role.Fits node)
    (unlinked : role.unlinked = true) : node.isLink = false := by
  cases role with
  | directory => cases node <;> simp_all [Fits, Node.isDirectory, Node.isLink]
  | file => exact fits.2
  | link targets => contradiction
  | service => exact fits
  | free => contradiction

theorem Fits.withMode {role : Role} {node : Node String} (fits : role.Fits node)
    (change : Nat → Nat) : role.Fits (node.withMode change) := by
  cases node with
  | link target => exact fits
  | directory mode => cases role <;> simp_all [Fits, Node.withMode, Node.isDirectory, Node.isLink]
  | file content mode =>
      cases role <;> simp_all [Fits, Node.withMode, Node.isDirectory, Node.isLink]

theorem Fits.withFileMode {role : Role} {node : Node String} (fits : role.Fits node)
    (change : Nat → Nat) : role.Fits (node.withFileMode change) := by
  cases node with
  | link target => exact fits
  | directory mode => exact fits
  | file content mode => exact fits.withMode change

end Role

/-- The directories through which the script writes. -/
def directories : List Path :=
  [[], ["bin"], ["sbin"], ["etc"], ["tmp"], ["var"], ["var", "tmp"], ["usr"], ["usr", "lib"],
    ["etc", "runit"], ["etc", "runit", "runsvdir"], ["etc", "runit", "runsvdir", "default"],
    ["etc", "sv"], ["etc", "iwd"], ["etc", "xbps.d"], ["usr", "share"],
    ["usr", "share", "applications"], ["root"], ["root", "Desktop"], ["home"], ["home", "aqj"],
    ["home", "aqj", "Desktop"]]

/-- The files that the script writes, BusyBox, to which links lead, and the files
that show that glibc is there. -/
def files : List Path :=
  [["etc", "runit", "1"], ["etc", "runit", "2"], ["etc", "runit", "3"],
    ["etc", "runit", "ctrlaltdel"], ["etc", "runit", "hostname"], ["etc", "hostname"],
    ["etc", "fstab"], ["bin", "busybox"], ["etc", "iwd", "main.conf"], ["etc", "dhcpcd.conf"],
    ["etc", "xbps.d", "00-repository-main.conf"], ["sbin", "aqj-install"],
    ["sbin", "aqj-install-gui"], ["usr", "share", "applications", desktopName],
    ["root", "Desktop", desktopName], ["home", "aqj", "Desktop", desktopName]] ++ glibcFiles

/-- Where the script enables a service. -/
def enabledPath (name : String) : Path :=
  ["etc", "runit", "runsvdir", "default", name]

/-- The links that the script replaces, with the targets they may have. -/
def links : List (Path × List Target) :=
  [(enabledPath "getty-tty1", [serviceTarget "getty-tty1"]),
    (enabledPath "getty-tty2", [serviceTarget "getty-tty2"]),
    (["etc", "runit", "runsvdir", "current"], [defaultTarget]),
    (["sbin", "init"], [initTarget, busyboxTarget]),
    (["sbin", "runit-stage1"], [stage1Target]),
    (enabledPath "iwd", [serviceTarget "iwd"]),
    (enabledPath "dhcpcd", [serviceTarget "dhcpcd"]),
    (["bin", "sh"], [bashTarget, ⟨false, ["busybox"]⟩])]

/-- The role of a path below the rootfs. -/
def role (path : Path) : Role :=
  if path ∈ directories then .directory
  else if path ∈ files then .file
  else
    match links.lookup path with
    | some targets => .link targets
    | none => if ["etc", "sv"].isPrefixOf path then .service else .free

/-- Everything below `/etc/sv` belongs to a service. -/
theorem role_service (name : String) (rest : Path) :
    role ("etc" :: "sv" :: name :: rest) = .service := by
  have missing : links.lookup ("etc" :: "sv" :: name :: rest) = none := by
    rw [List.lookup_eq_none_iff]
    simp [links, enabledPath]
  simp [role, directories, files, glibcFiles, missing]

theorem unlinked_service (rest : Path) : (role ("etc" :: "sv" :: rest)).unlinked = true := by
  cases rest with
  | nil => rfl
  | cons name rest =>
      rw [role_service]
      rfl

/-- The project directory is real, and every node of the rootfs fits its role. -/
structure Tame (project : Project) (tree : Host) : Prop where
  reached : tree.holdsDirectory project.path = true
  fits : ∀ path node, tree.node (project.rootfs path) = some node → (role path).Fits node

/-- What `build_glibc.sh` looks for to skip the build is there, and so is the
directory that it makes before it looks. -/
structure GlibcInstalled (project : Project) (tree : Host) : Prop where
  workshop : tree.holdsDirectory project.packagesBuildDir = true
  files : ∀ path ∈ glibcFiles, ∃ content mode,
    tree.node (project.rootfs path) = some (.file content mode)

section Paths

variable {project : Project}

@[simp]
theorem rootfs_inj {path other : Path} :
    project.rootfs path = project.rootfs other ↔ path = other := by
  simp [Project.rootfs]

theorem rootfs_append (path rest : Path) :
    project.rootfs path ++ rest = project.rootfs (path ++ rest) := by
  simp [Project.rootfs]

theorem rootfs_dropLast {path : Path} (proper : path ≠ []) :
    (project.rootfs path).dropLast = project.rootfs path.dropLast := by
  obtain ⟨above, name, rfl⟩ := List.eq_nil_or_concat' path |>.resolve_left proper
  rw [← rootfs_append, List.dropLast_concat, List.dropLast_concat]

theorem project_prefix_rootfs (path : Path) : project.path <+: project.rootfs path :=
  List.prefix_append _ _

theorem rootfs_ne_project (path : Path) : project.path ≠ project.rootfs path := by
  intro same
  have lengths := congrArg List.length same
  simp [Project.rootfs] at lengths

theorem prefix_rootfs {above path : Path} (under : above <+: project.rootfs path) :
    above <+: project.path ∨ ∃ between, between <+: path ∧ above = project.rootfs between := by
  rcases List.prefix_or_prefix_of_prefix under (project_prefix_rootfs path) with
    within | ⟨rest, rfl⟩
  · exact .inl within
  · have below := (List.prefix_append_right_inj project.path).mp under
    rcases rest with _ | ⟨name, between⟩
    · exact .inl (by simp)
    · obtain ⟨rfl, deeper⟩ := List.cons_prefix_cons.mp below
      exact .inr ⟨between, deeper, rfl⟩

theorem mem_inits_tail {above path : Path} :
    above ∈ path.inits.tail ↔ above <+: path ∧ above ≠ [] := by
  cases path with
  | nil => simp
  | cons name rest =>
      rw [List.inits_cons, List.tail_cons, List.mem_map]
      constructor
      · rintro ⟨below, member, rfl⟩
        exact ⟨List.cons_prefix_cons.mpr ⟨rfl, (List.mem_inits _ _).mp member⟩, by simp⟩
      · rintro ⟨under, proper⟩
        obtain ⟨first, below, rfl⟩ := List.exists_cons_of_ne_nil proper
        obtain ⟨rfl, deeper⟩ := List.cons_prefix_cons.mp under
        exact ⟨below, (List.mem_inits _ _).mpr deeper, rfl⟩

theorem plain_rootfs {path : Path} (plain : ∀ name ∈ path, LinkTree.Plain name) :
    ∀ name ∈ project.rootfs path, LinkTree.Plain name := by
  intro name member
  rcases List.mem_append.mp member with inProject | below
  · exact project.plain name inProject
  · rcases List.mem_cons.mp below with rfl | inPath
    · decide
    · exact plain name inPath

end Paths

/-- The path has plain names, and no link may stand on the way to it. -/
def Direct (path : Path) : Prop :=
  (∀ name ∈ path, LinkTree.Plain name) ∧ ∀ above ∈ path.inits, (role above).unlinked = true

instance (path : Path) : Decidable (Direct path) :=
  inferInstanceAs (Decidable (_ ∧ _))

theorem direct_service {rest : Path} (plain : ∀ name ∈ rest, LinkTree.Plain name) :
    Direct ("etc" :: "sv" :: rest) := by
  constructor
  · intro name member
    rcases List.mem_cons.mp member with rfl | member
    · decide
    · rcases List.mem_cons.mp member with rfl | member
      · decide
      · exact plain name member
  · intro above member
    rcases above with _ | ⟨first, _ | ⟨second, rest⟩⟩
    · rfl
    · obtain ⟨rfl, _⟩ := List.cons_prefix_cons.mp ((List.mem_inits _ _).mp member)
      rfl
    · obtain ⟨rfl, below⟩ := List.cons_prefix_cons.mp ((List.mem_inits _ _).mp member)
      obtain ⟨rfl, _⟩ := List.cons_prefix_cons.mp below
      exact unlinked_service rest

namespace Tame

variable {project : Project} {tree : Host}

theorem holdsLink_rootfs (tame : Tame project tree) {path : Path}
    (unlinked : (role path).unlinked = true) :
    tree.holdsLink (project.rootfs path) = false := by
  unfold LinkTree.holdsLink
  cases there : tree.node (project.rootfs path) with
  | none => rfl
  | some node => exact (tame.fits path node there).isLink unlinked

/-- A direct path means itself. -/
theorem straight (tame : Tame project tree) {path : Path} (direct : Direct path) :
    tree.Straight (project.rootfs path) := by
  constructor
  · exact plain_rootfs direct.1
  · intro above under
    rcases prefix_rootfs under with within | ⟨between, below, rfl⟩
    · have real := LinkTree.straight_of_holdsDirectory project.plain tame.reached
      exact real.unlinked above within
    · exact tame.holdsLink_rootfs (direct.2 between ((List.mem_inits _ _).mpr below))

theorem straight_parent (tame : Tame project tree) {path : Path} (proper : path ≠ [])
    (direct : Direct path.dropLast) : tree.Straight (project.rootfs path).dropLast := by
  rw [rootfs_dropLast proper]
  exact tame.straight direct

end Tame

end AqjOs.Rootfs
