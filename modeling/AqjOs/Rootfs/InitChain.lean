import AqjOs.Files.Spares
import AqjOs.Rootfs.Layout

/-!
# The link to runit's init

Section 3 of the script links `/sbin/init` to `/sbin/runit-init`.  BusyBox, if
its builder is executable, is installed after it and brings an `/sbin/init` of
its own, and nothing later restores the link, whatever the tree looked like
before the run.  Without that builder the sections after the fourth leave the
chain alone.
-/

namespace AqjOs.Rootfs

open AqjOs.Files AqjOs.Shell AqjOs.Shell.Script

/-- Some execute bit is set. -/
def Executable (mode : Nat) : Prop :=
  mode &&& 0o111 ≠ 0

instance (mode : Nat) : Decidable (Executable mode) :=
  inferInstanceAs (Decidable (_ ≠ _))

/-- The regular file at a path can be executed. -/
def HoldsExecutable (tree : Host) (path : Path) : Prop :=
  LinkTree.HoldsFile Executable tree path

/-- The chain from `/sbin/init` to the stages of runit, seen with the rootfs as
the root directory. -/
structure InitChain (project : Project) (tree : Host) : Prop where
  link : tree.node (project.rootfs ["sbin", "init"]) = some (.link initTarget)
  program : ∃ place, tree.resolveIn (project.rootfs []) ["sbin", "init"] = some place ∧
    project.rootfs [] <+: place ∧ HoldsExecutable tree place
  stages : ∀ name ∈ ["1", "2", "3"],
    HoldsExecutable tree (project.rootfs ["etc", "runit", name])

/-- The files to which the chain leads. -/
def programPaths : List Path :=
  [["sbin", "runit-init"], ["etc", "runit", "1"], ["etc", "runit", "2"], ["etc", "runit", "3"]]

/-- The link and the files of the chain are in their places. -/
structure Provided (project : Project) (tree : Host) : Prop where
  link : tree.node (project.rootfs ["sbin", "init"]) = some (.link initTarget)
  programs : ∀ path ∈ programPaths, HoldsExecutable tree (project.rootfs path)

/-- With everything in its place the chain is complete. -/
theorem Provided.initChain {project : Project} {tree : Host} (provided : Provided project tree) :
    InitChain project tree := by
  have sbin (name : String) : project.rootfs [] ++ ["sbin"] ++ [name] =
      project.rootfs ["sbin", name] := by
    simp [Project.rootfs]
  have parent : tree.holdsDirectory (project.rootfs [] ++ ["sbin"]) = true := by
    have present : tree.node (project.rootfs [] ++ ["sbin"] ++ ["init"]) ≠ none := by
      rw [sbin, provided.link]
      exact Option.some_ne_none _
    exact LinkTree.holdsDirectory_parent present
  obtain ⟨mode, directory⟩ := LinkTree.holdsDirectory_iff.mp parent
  have program := provided.programs ["sbin", "runit-init"] (by decide)
  obtain ⟨content, _, there, _⟩ := program
  have leads : tree.resolveIn (project.rootfs []) ["sbin", "init"] =
      some (project.rootfs ["sbin", "runit-init"]) := by
    have followed : tree.walk (project.rootfs []) (LinkTree.maxLinks - 1) (project.rootfs [])
        ["sbin", "runit-init"] = some (project.rootfs ["sbin", "runit-init"]) := by
      change tree.walkWith (project.rootfs []) _ (project.rootfs []) _ = _
      rw [LinkTree.walkWith_cons (by decide), directory]
      simp only
      rw [LinkTree.walkWith_cons (by decide), sbin, there]
      simp
    change tree.walkWith (project.rootfs []) _ (project.rootfs []) _ = _
    rw [LinkTree.walkWith_cons (by decide), directory]
    simp only
    rw [LinkTree.walkWith_cons (by decide), sbin, provided.link]
    exact followed
  refine ⟨provided.link, ⟨_, leads, ?_, provided.programs _ (by decide)⟩, ?_⟩
  · simp [Project.rootfs]
  · intro name member
    apply provided.programs
    revert name
    decide

/-- What a package installs, by its path below the rootfs. -/
abbrev Manifest := Path → Option (Node String)

/-- An install step that succeeds has written the paths of the manifest,
replacing what was there, and nothing else in the rootfs.  A directory of the
manifest may have been there before. -/
structure Installs (project : Project) (manifest : Manifest) (install : Command Host) : Prop where
  placed : ∀ tree path node, (install tree).1 = .success → manifest path = some node →
    node.isDirectory = false → (install tree).2.node (project.rootfs path) = some node
  directories : ∀ tree path node, (install tree).1 = .success → manifest path = some node →
    node.isDirectory = true → (install tree).2.holdsDirectory (project.rootfs path) = true
  kept : ∀ tree path, (install tree).1 = .success → manifest path = none →
    (install tree).2.node (project.rootfs path) = tree.node (project.rootfs path)

/-- The command leaves the rootfs alone. -/
def Elsewhere (project : Project) (command : Command Host) : Prop :=
  ∀ tree path, (command tree).2.node (project.rootfs path) = tree.node (project.rootfs path)

/-- The packages install what their manifests say.  BusyBox brings its init applet,
and no other package anything of the chain; glibc is unpacked and compiled outside
the rootfs. -/
structure Packages (project : Project) (env : Environment) (manifest : Package → Manifest) :
    Prop where
  installs : ∀ package, Installs project (manifest package) (env.install package)
  unpack : Elsewhere project env.unpackGlibc
  compile : Elsewhere project env.compileGlibc
  applet : manifest .busybox ["sbin", "init"] = some (.link busyboxTarget)
  others : ∀ package, package ≠ .busybox → ∀ path ∈ ["sbin", "init"] :: programPaths,
    manifest package path = none

/-- The services that are copied after BusyBox contain no link. -/
def PlainServices (env : Environment) : Prop :=
  ∀ config ∈ env.runit, ∀ name ∈ ["iwd", "dhcpcd"], ∀ entry ∈ config.service name,
    entry.2.isLink = false

/-! ## Conditions that outlive the later sections -/

/-- What the sections after the fourth do, apart from BusyBox, keeps the condition. -/
structure Outlives (project : Project) (env : Environment) (condition : Host → Prop) : Prop where
  install : ∀ package, package ≠ .busybox →
    Triple condition (run (env.install package)) condition fun _ => True
  unpack : ∀ tree, condition tree → condition (env.unpackGlibc tree).2
  compile : ∀ tree, condition tree → condition (env.compileGlibc tree).2
  mkdirs : ∀ paths tree, condition tree →
    condition (LinkTree.mkdirs env.directoryMode paths tree).2
  remove : ∀ path ∈ [project.glibcSource, glibcBuildDir], ∀ tree, condition tree →
    condition (LinkTree.removeAll env.removes env.kept path tree).2
  edit : ∀ path ∈ [["usr", "lib", "libc.so"], ["usr", "lib", "libm.so"]], ∀ tree,
    condition tree →
    condition (Command.ofOption (LinkTree.editInPlace sanitize (project.rootfs path)) tree).2
  copyFile : ∀ source name path tree, condition tree →
    condition (copyFile project source name path tree).2
  chmod : ∀ paths tree, condition tree → condition (chmodExecutable project env paths tree).2
  services : ∀ config ∈ env.runit, ∀ name ∈ ["iwd", "dhcpcd"], ∀ tree, condition tree →
    condition (LinkTree.copyTree (config.service name) (project.rootfs ["etc", "sv"]) tree).2
  enable : ∀ name ∈ ["iwd", "dhcpcd"], ∀ tree, condition tree →
    condition (link project (serviceTarget name) ["etc", "runit", "runsvdir", "default", name]
      tree).2
  shell : ∀ tree, condition tree → condition (link project bashTarget ["bin", "sh"] tree).2

namespace Outlives

variable {project : Project} {env : Environment} {condition : Host → Prop}

theorem sanitizeLibraries (outlives : Outlives project env condition) :
    Preserves condition (sanitizeLibraries project) :=
  ⟨⟨outlives.edit _ (by simp), trivial⟩, ⟨outlives.edit _ (by simp), trivial⟩, trivial⟩

theorem buildGlibc (outlives : Outlives project env condition) :
    Triple condition (buildGlibc project env) condition fun _ => True := by
  have kept {script : Script Host} (preserves : Preserves condition script) :
      Triple condition script condition fun _ => True := preserves.triple.forget
  have removed {path : Path} (listed : path ∈ [project.glibcSource, glibcBuildDir]) :
      Preserves condition (.run (LinkTree.removeAll env.removes env.kept path)) :=
    outlives.remove path listed
  have installed : Triple condition (.block [.run env.compileGlibc, .run (env.install .glibc),
      Rootfs.sanitizeLibraries project]) condition fun _ => True := by
    have compiled : Preserves condition (.run env.compileGlibc) := outlives.compile
    apply triple_seq (kept compiled)
    apply triple_seq (outlives.install .glibc (by decide))
    apply triple_seq (kept outlives.sanitizeLibraries)
    exact triple_skip
  have built : Triple condition (.block [
      .when (fun _ => env.clean)
        (.run (LinkTree.removeAll env.removes env.kept project.glibcSource)),
      .when (fun tree => !tree.isDirectory project.glibcSource) (.run env.unpackGlibc),
      .run (LinkTree.removeAll env.removes env.kept glibcBuildDir),
      .run (LinkTree.mkdirs env.directoryMode [glibcBuildDir]),
      .when (fun _ => env.linux) (.block [.run env.compileGlibc, .run (env.install .glibc),
        Rootfs.sanitizeLibraries project])]) condition fun _ => True := by
    have unpacked : Preserves condition
        (.when (fun tree => !tree.isDirectory project.glibcSource) (.run env.unpackGlibc)) :=
      ⟨outlives.unpack, trivial⟩
    have cleaned : Preserves condition (.when (fun _ => env.clean)
        (.run (LinkTree.removeAll env.removes env.kept project.glibcSource))) :=
      ⟨removed (by simp), trivial⟩
    have made : Preserves condition (.run (LinkTree.mkdirs env.directoryMode [glibcBuildDir])) :=
      outlives.mkdirs _
    apply triple_seq (kept cleaned)
    apply triple_seq (kept unpacked)
    apply triple_seq (kept (removed (by simp)))
    apply triple_seq (kept made)
    apply triple_seq
    · apply triple_when
      · exact installed.mono (fun _ holds => holds.1) (fun _ holds => holds) fun _ holds => holds
      · exact fun _ holds _ => holds
    · exact triple_skip
  have tested : Preserves condition
      (.when (fun tree => !tree.isFile project.glibcTarball) (.exit 1)) := ⟨trivial, trivial⟩
  have made : Preserves condition (.run (LinkTree.mkdirs env.directoryMode
      [project.packagesBuildDir, project.rootfs []])) := outlives.mkdirs _
  apply triple_seq (kept tested)
  apply triple_seq (kept made)
  refine triple_seq (triple_ite ?_ ?_) triple_skip
  · exact (kept outlives.sanitizeLibraries).mono (fun _ holds => holds.1) (fun _ holds => holds)
      fun _ holds => holds
  · exact built.mono (fun _ holds => holds.1) (fun _ holds => holds) fun _ holds => holds

theorem buildBash (outlives : Outlives project env condition) :
    Triple condition (buildBash project env) condition fun _ => True := by
  apply triple_seq (outlives.install .bash (by decide))
  apply Triple.forget
  apply Preserves.triple
  exact ⟨⟨outlives.shell, trivial⟩, trivial⟩

theorem runBuilder (outlives : Outlives project env condition) {package : Package}
    (other : package ≠ .busybox) :
    Triple condition (runBuilder project env package) condition fun _ => True := by
  have built : Triple condition (builder project env package) condition fun _ => True := by
    unfold builder
    split
    · exact outlives.buildGlibc
    · exact outlives.buildBash
    · exact outlives.install package other
  apply triple_when
  · exact built.mono (fun _ holds => holds.1) (fun _ holds => holds) fun _ holds => holds
  · exact fun _ holds _ => holds

theorem configureIwd (outlives : Outlives project env condition) :
    Preserves condition (configureIwd project env) :=
  preserves_whenPresent fun source =>
    ⟨outlives.mkdirs _, outlives.copyFile source _ _, trivial⟩

theorem configureDhcpcd (outlives : Outlives project env condition) :
    Preserves condition (configureDhcpcd project env) :=
  preserves_whenPresent fun source => outlives.copyFile source _ _

theorem configureXbps (outlives : Outlives project env condition) :
    Preserves condition (configureXbps project env) :=
  preserves_whenPresent fun source =>
    ⟨outlives.mkdirs _, outlives.copyFile source _ _, trivial⟩

theorem enableService (outlives : Outlives project env condition) {name : String}
    (daemon : name ∈ ["iwd", "dhcpcd"]) :
    Preserves condition (enableService project env name) := by
  unfold Rootfs.enableService
  cases found : env.runit with
  | none => trivial
  | some config =>
      exact ⟨⟨outlives.services config found name daemon, outlives.chmod _,
        outlives.enable name daemon, trivial⟩, trivial⟩

theorem installProgram (outlives : Outlives project env condition) (source : Option Source)
    (name : String) (path : Path) :
    Preserves condition (installProgram project env source name path) :=
  preserves_whenPresent fun source =>
    ⟨outlives.copyFile source _ _, outlives.chmod _, trivial⟩

theorem installInstaller (outlives : Outlives project env condition) :
    Preserves condition (installInstaller project env) :=
  ⟨outlives.mkdirs _, outlives.installProgram _ _ _, outlives.installProgram _ _ _,
    preserves_whenPresent fun source =>
      ⟨outlives.copyFile source _ _, outlives.copyFile source _ _, outlives.copyFile source _ _,
        outlives.chmod _, trivial⟩, trivial⟩

theorem populateRest (outlives : Outlives project env condition) :
    Triple condition (populateRest project env) condition fun _ => True := by
  have built {package : Package} (other : package ≠ .busybox) := outlives.runBuilder other
  apply triple_seq (built (by decide))
  apply triple_seq (built (by decide))
  apply triple_seq (built (by decide))
  apply triple_seq outlives.configureIwd.triple.forget
  apply triple_seq (outlives.enableService (by simp)).triple.forget
  apply triple_seq (built (by decide))
  apply triple_seq outlives.configureDhcpcd.triple.forget
  apply triple_seq (outlives.enableService (by simp)).triple.forget
  apply triple_seq (built (by decide))
  apply triple_seq outlives.configureXbps.triple.forget
  apply triple_seq (built (by decide))
  apply triple_seq (built (by decide))
  apply triple_seq (built (by decide))
  apply triple_seq (built (by decide))
  exact triple_skip

end Outlives

/-! ## The missing link -/

section Lost

variable {project : Project} {env : Environment} {manifest : Package → Manifest}

/-- The link of section 3 is not at its place. -/
def Unlinked (project : Project) (tree : Host) : Prop :=
  tree.node (project.rootfs ["sbin", "init"]) ≠ some (.link initTarget)

theorem unlinked_of_makesNoLink {command : Command Host}
    (makes : LinkTree.MakesNoLink initTarget command) (tree : Host)
    (unlinked : Unlinked project tree) : Unlinked project (command tree).2 :=
  fun present => unlinked (makes tree _ present)

theorem Elsewhere.unlinked {command : Command Host} (elsewhere : Elsewhere project command)
    (tree : Host) (unlinked : Unlinked project tree) : Unlinked project (command tree).2 := by
  rw [Unlinked, elsewhere]
  exact unlinked

/-- Where the link is missing, nothing after BusyBox makes it. -/
theorem Packages.outlives_unlinked (packages : Packages project env manifest)
    (services : PlainServices env) : Outlives project env (Unlinked project) where
  install package other := by
    apply triple_run
    · intro tree unlinked success
      rw [Unlinked, (packages.installs package).kept tree _ success
        (packages.others package other _ (by simp))]
      exact unlinked
    · exact fun _ _ _ => trivial
  unpack := packages.unpack.unlinked
  compile := packages.compile.unlinked
  mkdirs paths := unlinked_of_makesNoLink (.mkdirs _ paths)
  remove path _ := unlinked_of_makesNoLink (.removeAll _ _ _ path)
  edit path _ := unlinked_of_makesNoLink (.editInPlace _ _)
  copyFile source name path := unlinked_of_makesNoLink (.copyTo _ _ _ _)
  chmod paths := unlinked_of_makesNoLink (.chmods _ _)
  services config found name daemon := by
    apply unlinked_of_makesNoLink (.copyTree _ _)
    rintro entry listed same
    have plain := services config found name daemon entry listed
    rw [same] at plain
    contradiction
  enable name _ := unlinked_of_makesNoLink (.symlink (by simp [serviceTarget, initTarget]) _)
  shell := unlinked_of_makesNoLink (.symlink (by decide) _)

/-- BusyBox leaves its own link at `/sbin/init`. -/
theorem Packages.busybox_unlinked (packages : Packages project env manifest)
    (executable : env.executable .busybox = true) :
    Triple (fun _ => True) (runBuilder project env .busybox) (Unlinked project)
      fun _ => True := by
  have installed : Triple (fun _ => True) (builder project env .busybox) (Unlinked project)
      fun _ => True := by
    apply triple_run
    · intro tree _ success
      have placed := (packages.installs .busybox).placed tree _ _ success packages.applet rfl
      unfold Unlinked
      rw [placed]
      decide
    · exact fun _ _ _ => trivial
  apply triple_when
  · exact installed.mono (fun _ _ => trivial) (fun _ holds => holds) fun _ holds => holds
  · intro _ _ skipped
    rw [executable] at skipped
    contradiction

end Lost

/-! ## The chain that is left alone -/

section Kept

variable {project : Project} {env : Environment} {manifest : Package → Manifest}

/-- A command that spares the paths of the chain keeps the chain. -/
theorem provided_of_spares {command : Command Host}
    (spares : ∀ path ∈ ["sbin", "init"] :: programPaths,
      LinkTree.Spares Executable (project.rootfs path) command)
    (tree : Host) (provided : Provided project tree) : Provided project (command tree).2 := by
  constructor
  · exact (spares _ (by simp)).link tree _ provided.link
  · intro path member
    exact (spares path (by simp [member])).file tree (provided.programs path member)

theorem Elsewhere.provided {command : Command Host} (elsewhere : Elsewhere project command) :
    ∀ tree, Provided project tree → Provided project (command tree).2 :=
  provided_of_spares fun path _ => .of_same fun tree => elsewhere tree path

/-- The last names of the chain, to which nothing else that is replaced comes. -/
theorem getLast?_chain (project : Project) {path : Path} (member : path ∈ ["sbin", "init"] :: programPaths) :
    ∃ name ∈ ["init", "runit-init", "1", "2", "3"],
      (project.rootfs path).getLast? = some name := by
  simp only [programPaths, List.mem_cons, List.not_mem_nil, or_false] at member
  rcases member with rfl | rfl | rfl | rfl | rfl <;> simp [Project.rootfs]

theorem provided_link {target : Target} {operand : Path}
    (apart : ∀ name ∈ ["init", "runit-init", "1", "2", "3"],
      (project.rootfs operand).getLast? ≠ some name ∧ target.basename ≠ name)
    (tree : Host) :
    Provided project tree → Provided project (link project target operand tree).2 := by
  apply provided_of_spares
  intro path member
  obtain ⟨name, known, last⟩ := getLast?_chain project member
  apply LinkTree.Spares.symlink
  rw [last]
  exact ⟨fun same => (apart name known).1 same.symm,
    fun same => (apart name known).2 (Option.some.inj same).symm⟩

/-- What comes after section 4, apart from BusyBox, keeps the chain. -/
theorem Packages.outlives_provided (packages : Packages project env manifest)
    (services : PlainServices env) (apart : "glibc-2.44" ∉ project.path) :
    Outlives project env (Provided project) where
  install package other := by
    apply triple_run
    · intro tree provided success
      have kept : ∀ path ∈ ["sbin", "init"] :: programPaths,
          (env.install package tree).2.node (project.rootfs path) =
            tree.node (project.rootfs path) := fun path member =>
        (packages.installs package).kept tree path success
          (packages.others package other path member)
      constructor
      · rw [kept _ (by simp), provided.link]
      · intro path member
        obtain ⟨content, mode, there, executable⟩ := provided.programs path member
        exact ⟨content, mode, (kept path (by simp [member])).trans there, executable⟩
    · exact fun _ _ _ => trivial
  unpack := packages.unpack.provided
  compile := packages.compile.provided
  mkdirs paths := provided_of_spares fun _ _ => .mkdirs _ _
  remove path listed := by
    apply provided_of_spares
    intro inner member
    have absent : "glibc-2.44" ∉ project.rootfs inner := by
      have inside : ∀ inner ∈ ["sbin", "init"] :: programPaths, "glibc-2.44" ∉ inner := by decide
      simp [Project.rootfs, apart, inside inner member]
    rcases List.mem_pair.mp listed with rfl | rfl
    · exact .removeAll absent _ _
    · have split : glibcBuildDir = ["tmp", "aqj-os-build"] ++ ["glibc-2.44"] := rfl
      rw [split]
      exact .removeAll absent _ _
  edit path listed := by
    apply provided_of_spares
    intro inner member
    obtain ⟨name, known, last⟩ := getLast?_chain project member
    apply LinkTree.Spares.editInPlace
    rw [last]
    rcases List.mem_pair.mp listed with rfl | rfl
    · simp only [Project.rootfs]
      revert name
      simp
    · revert name
      simp [Project.rootfs]
  copyFile source name path := provided_of_spares fun _ _ => .copyTo _ _ _ _
  chmod paths := by
    apply provided_of_spares
    intro path _
    apply LinkTree.Spares.chmods
    intro mode executable
    unfold Executable at executable ⊢
    intro none
    apply executable
    rw [Nat.and_or_distrib_right, Nat.or_eq_zero_iff] at none
    exact none.1
  services config found name daemon :=
    provided_of_spares fun _ _ => .copyTree (services config found name daemon) _
  enable name daemon := by
    apply provided_link
    rcases List.mem_pair.mp daemon with rfl | rfl
    · simp [Project.rootfs, serviceTarget, Target.basename]
    · simp [Project.rootfs, serviceTarget, Target.basename]
  shell := by
    apply provided_link
    simp [Project.rootfs, bashTarget, Target.basename]

end Kept

section Runs

variable {project : Project} {env : Environment} {manifest : Package → Manifest}

/-- What outlives the later sections holds to the end of a run without BusyBox. -/
theorem Outlives.final {condition : Host → Prop} (outlives : Outlives project env condition)
    (skipped : env.executable .busybox = false) {tree based built : Host}
    (prepared : exec (prepare project env) tree = .continues based)
    (ran : exec (runBuilders project env) tree = .continues built) (start : condition based) :
    condition (exec (populate project env) tree).state := by
  obtain ⟨middle, base, later⟩ := exec_seq_eq_continues.mp ran
  obtain ⟨first, begun, glibc⟩ := exec_seq_eq_continues.mp base
  obtain rfl : based = first := by
    rw [prepared] at begun
    exact Outcome.continues.inj begun
  have libraries : Triple condition (.block [Rootfs.runBuilder project env .glibc,
      Rootfs.sanitizeLibraries project]) condition fun _ => True := by
    apply triple_seq (outlives.runBuilder (by decide))
    apply triple_seq outlives.sanitizeLibraries.triple.forget
    exact triple_skip
  have rest : Triple condition (.block [Rootfs.runBuilder project env .busybox,
      Rootfs.populateRest project env]) condition fun _ => True := by
    apply triple_seq
    · apply triple_when
      · rintro state ⟨_, executable⟩
        rw [skipped] at executable
        contradiction
      · exact fun _ holds _ => holds
    · exact triple_seq outlives.populateRest triple_skip
  have last := rest.continues (libraries.continues start glibc) later
  rw [populate, exec_seq_of_continues ran]
  exact outlives.installInstaller.triple.state built last

/-- A run that gets past BusyBox's builder ends without the link of section 3. -/
theorem Packages.unlinked_of_busybox (packages : Packages project env manifest)
    (services : PlainServices env) (executable : env.executable .busybox = true)
    {tree built : Host} (ran : exec (runBuilders project env) tree = .continues built) :
    Unlinked project (exec (populate project env) tree).state := by
  have outlives := packages.outlives_unlinked services
  have lost : Triple (fun _ => True) (runBuilders project env) (Unlinked project)
      fun _ => True := by
    apply triple_seq (triple_true _)
    apply triple_seq (packages.busybox_unlinked executable)
    exact triple_seq outlives.populateRest triple_skip
  have unlinked := lost.continues trivial ran
  rw [populate, exec_seq_of_continues ran]
  exact outlives.installInstaller.triple.state built unlinked

end Runs

/-! ## A build that loses the link -/

/-- What the packages of the small build install. -/
def smallManifest (package : Package) : Manifest :=
  fun path =>
    if package = .busybox ∧ path = ["sbin", "init"] then some (.link busyboxTarget) else none

theorem smallBuild_installs (package : Package) :
    Installs smallProject (smallManifest package) (smallBuild.install package) := by
  constructor
  · intro tree path node success listed notDirectory
    unfold smallManifest at listed
    split at listed
    · rename_i applet
      obtain ⟨rfl, rfl⟩ := applet
      cases listed
      simp only [smallBuild, Command.ofOption] at success ⊢
      split at success
      · rename_i next placed
        exact (LinkTree.node_set placed _).trans (if_pos rfl)
      · contradiction
    · contradiction
  · intro tree path node success listed directory
    unfold smallManifest at listed
    split at listed
    · cases listed
      contradiction
    · contradiction
  · intro tree place success outside
    cases package with
    | busybox =>
        have elsewhere : smallProject.rootfs place ≠ smallProject.rootfs ["sbin", "init"] := by
          intro same
          rw [rootfs_inj] at same
          simp [smallManifest, same] at outside
        simp only [smallBuild, Command.ofOption]
        split
        · rename_i next placed
          rw [LinkTree.node_set placed, if_neg elsewhere]
        · rfl
    | _ => rfl

theorem smallBuild_packages : Packages smallProject smallBuild smallManifest where
  installs := smallBuild_installs
  unpack _ _ := rfl
  compile _ _ := rfl
  applet := rfl
  others package other path _ := by simp [smallManifest, other]

theorem smallBuild_plainServices : PlainServices smallBuild := by
  intro config found name daemon entry listed
  have equal : smallRunit = config := Option.some.inj found
  subst equal
  have empty : ∀ name ∈ ["iwd", "dhcpcd"], smallRunit.service name = [] := by decide
  rw [empty name daemon] at listed
  contradiction

/-- A rootfs that already holds runit's init program. -/
def smallTree : Host :=
  .ofEntries [
    (["aqj"], .directory 0o755),
    (["aqj", "rootfs"], .directory 0o755),
    (["aqj", "rootfs", "sbin"], .directory 0o755),
    (["aqj", "rootfs", "sbin", "runit-init"], .file "runit-init" 0o755)]

theorem smallBuild_running :
    (exec (runBuilders smallProject smallBuild) smallTree).running = true := by
  decide +kernel

/-- The same build with a builder of BusyBox that is not executable. -/
def bareBuild : Environment :=
  { smallBuild with executable := fun package => package != .glibc && package != .busybox }

theorem bareBuild_packages : Packages smallProject bareBuild smallManifest :=
  ⟨smallBuild_packages.installs, smallBuild_packages.unpack, smallBuild_packages.compile, smallBuild_packages.applet,
    smallBuild_packages.others⟩

end AqjOs.Rootfs
