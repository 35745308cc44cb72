import AqjOs.Rootfs.Confined
import AqjOs.Shell.Throughout
import AqjOs.Transition.Run

/-!
# Populating and the host

The links of the rootfs are absolute, and the script follows them on the build
host.  `ln -sf` onto a link that an earlier run has left is where this matters:
if the host has a directory under the name of the link's target, the new link is
put into that directory of the host.  In a tame tree it is the only way in which
the script can leave the project.
-/

namespace AqjOs.Rootfs

open AqjOs.Files AqjOs.Shell AqjOs.Shell.Script AqjOs.Transition

/-! ## The whole script -/

/-- The paths at which the script makes links, in its order. -/
def linkPaths : List Path :=
  links.map Prod.fst

/-- The packages other than glibc stay inside the project, put no link where the
script writes and bring no absolute link where it makes one; the services contain
no link. -/
structure Considerate (project : Project) (env : Environment) : Prop where
  tame : ∀ package tree, package ≠ .glibc → Tame project tree →
    Tame project (env.install package tree).2
  outside : ∀ package tree, package ≠ .glibc → Tame project tree →
    AgreeOutside project tree (env.install package tree).2
  absolute : ∀ package tree, package ≠ .glibc → Tame project tree →
    ∀ path ∈ linkPaths, ∀ target, target.absolute = true →
    (env.install package tree).2.node (project.rootfs path) = some (.link target) →
    tree.node (project.rootfs path) = some (.link target)
  installed : ∀ package tree, package ≠ .glibc → Tame project tree →
    GlibcInstalled project tree → GlibcInstalled project (env.install package tree).2
  services : ∀ config ∈ env.runit, Linkless (config.services.getD [])

section Run

variable {project : Project} {env : Environment} {host : Host} {pending : List Path}

theorem Considerate.kept (considerate : Considerate project env) {package : Package}
    (other : package ≠ .glibc) (subset : pending ⊆ linkPaths) (tree : Host)
    (kept : Kept project host pending tree) :
    Kept project host pending (env.install package tree).2 := by
  constructor
  · exact considerate.tame package tree other kept.tame
  · exact kept.outside.trans (considerate.outside package tree other kept.tame)
  · exact fun before =>
      considerate.installed package tree other kept.tame (kept.installed before)
  · intro path member target there absolute
    have before := considerate.absolute package tree other kept.tame path (subset member) target
      absolute there
    exact kept.harmless path member target before absolute

theorem Considerate.linkless_service (considerate : Considerate project env)
    {config : RunitConfig} (found : env.runit = some config) (name : String) :
    Linkless (config.service name) :=
  fun entry member => considerate.services config found entry (List.mem_of_mem_filter member)

theorem makeTree_kept : Preserves (Kept project host pending) (makeTree project env) :=
  ⟨fun _ => (confined_mkdirs _ (by decide)).kept, fun _ => (confined_mkdirs _ (by decide)).kept,
    fun _ => (confined_mkdirs _ (by decide)).kept,
    fun _ => (confined_chmods _ (by decide)).kept,
    fun _ => (confined_mkdirs _ (by decide)).kept, fun _ => (confined_mkdirs _ (by decide)).kept,
    fun _ => (confined_mkdirs _ (by decide)).kept, trivial⟩

theorem copyStage_kept (config : RunitConfig) {name : String} (stage : name ∈ stageFiles) :
    Preserves (Kept project host pending) (copyStage project config name) := by
  have writable : ∀ name ∈ stageFiles, Writable (["etc", "runit"] ++ [name]) := by decide
  exact preserves_whenPresent fun source _ =>
    (confined_copyInto (writable name stage) source).kept

theorem copyStages_kept (config : RunitConfig) :
    Preserves (Kept project host pending)
      (Script.block (stageFiles.map (copyStage project config))) := by
  apply preserves_block
  intro script member
  obtain ⟨name, stage, rfl⟩ := List.mem_map.mp member
  exact copyStage_kept config stage

/-- After a link has been made nothing is asked of its path any more. -/
theorem enableGetty_kept {name : String} (enabled : name ∈ ["getty-tty1", "getty-tty2"])
    (allowed : ∀ place ∈ linkPlaces (enabledPath name) [] (serviceTarget name),
      (role place).allows (serviceTarget name) = true ∧ place ∉ pending) :
    Throughout (Kept project host (enabledPath name :: pending)) (enableGetty project name)
      (Kept project host pending) (Kept project host []) := by
  have site : LinkSite (enabledPath name) [serviceTarget name] [] := by
    apply linkSite_service
    rcases List.mem_pair.mp enabled with rfl | rfl <;> simp
  apply throughout_when
  · apply throughout_run
    · intro tree kept
      exact site.kept allowed kept
    · intro tree kept
      exact kept.mono (by simp)
  · intro tree kept
    exact kept.mono (by simp)

theorem Kept.nil {tree : Host} (kept : Kept project host pending tree) :
    Kept project host [] tree :=
  kept.mono (by simp)

theorem throughout_link {path : Path} {targets : List Target} {ends : List Path}
    {target : Target} (site : LinkSite path targets ends)
    (allowed : ∀ place ∈ linkPlaces path ends target,
      (role place).allows target = true ∧ place ∉ pending) :
    Throughout (Kept project host (path :: pending)) (.tolerate (link project target path))
      (Kept project host pending) (Kept project host []) :=
  throughout_tolerate (fun _ kept => site.kept allowed kept) fun _ kept => kept.nil

theorem copyServices_kept {services : List (Path × Node String)}
    (proper : ∀ entry ∈ services, entry.1 ≠ [] ∧ ∀ name ∈ entry.1, LinkTree.Plain name)
    (linkless : Linkless services) :
    Throughout (Kept project host linkPaths) (copyServices project env services)
      (Kept project host (linkPaths.drop 2)) (Kept project host []) := by
  apply throughout_seq (throughout_tolerate (fun _ => (confined_copyTree proper linkless).kept)
    fun _ kept => kept.nil)
  apply throughout_seq (throughout_tolerate (fun _ => (confined_chmodFound _ _).kept)
    fun _ kept => kept.nil)
  apply throughout_seq (enableGetty_kept (by simp) (by decide))
  apply throughout_seq (enableGetty_kept (by simp) (by decide))
  exact throughout_skip

theorem configureRunit_kept {config : RunitConfig}
    (linkless : Linkless (config.services.getD [])) :
    Throughout (Kept project host linkPaths) (configureRunit project env config)
      (Kept project host (linkPaths.drop 3)) (Kept project host []) := by
  apply throughout_seq ((copyStages_kept config).throughout fun _ kept => kept.nil)
  apply throughout_seq (throughout_tolerate (fun _ => (confined_chmods _ (by decide)).kept)
    fun _ kept => kept.nil)
  have hostname : Preserves (Kept project host linkPaths)
      (whenPresent (config.file "hostname") fun source =>
        .run (copyFile project source "hostname" ["etc", "hostname"])) :=
    preserves_whenPresent fun source _ => (confined_copyFile (by decide) source _).kept
  apply throughout_seq (hostname.throughout fun _ kept => kept.nil)
  have current : Throughout (Kept project host (linkPaths.drop 2))
      (.run (link project defaultTarget ["etc", "runit", "runsvdir", "current"]))
      (Kept project host (linkPaths.drop 3)) (Kept project host []) :=
    throughout_run (fun _ kept => linkSite_current.kept (by decide) kept) fun _ kept => kept.nil
  refine throughout_seq ?_ (throughout_seq current throughout_skip)
  cases found : config.services with
  | none => exact throughout_skip.mono (fun _ kept => kept) fun _ kept => kept.mono (by decide)
  | some services =>
      have proper := config.proper
      rw [found] at proper linkless
      exact copyServices_kept proper linkless

theorem setupRunit_kept (considerate : Considerate project env) :
    Throughout (Kept project host linkPaths) (setupRunit project env)
      (Kept project host (linkPaths.drop 3)) (Kept project host []) := by
  unfold setupRunit
  cases found : env.runit with
  | none => exact throughout_skip.mono (fun _ kept => kept) fun _ kept => kept.mono (by decide)
  | some config => exact configureRunit_kept (considerate.services config found)

theorem linkInit_kept :
    Throughout (Kept project host (linkPaths.drop 3)) (linkInit project)
      (Kept project host (linkPaths.drop 5)) (Kept project host []) := by
  apply throughout_seq (throughout_link linkSite_init (by decide))
  apply throughout_seq (throughout_link linkSite_stage1 (by decide))
  exact throughout_skip

theorem writeFstab_kept : Preserves (Kept project host pending) (writeFstab project env) :=
  ⟨fun _ => (confined_writeFile (by decide) _ _).kept, trivial⟩

theorem sanitizeLibrary_kept {path : Path}
    (library : path ∈ [["usr", "lib", "libc.so"], ["usr", "lib", "libm.so"]]) :
    Preserves (Kept project host pending) (sanitizeLibrary project path) := by
  have checked : ∀ path ∈ [["usr", "lib", "libc.so"], ["usr", "lib", "libm.so"]],
      path ≠ [] ∧ Direct path.dropLast ∧ role path = .free := by
    decide
  obtain ⟨proper, direct, free⟩ := checked path library
  exact ⟨fun _ => (confined_editInPlace _ proper direct free).kept, trivial⟩

theorem sanitizeLibraries_kept :
    Preserves (Kept project host pending) (sanitizeLibraries project) :=
  ⟨sanitizeLibrary_kept (by simp), sanitizeLibrary_kept (by simp), trivial⟩

theorem runBuilder_kept (considerate : Considerate project env) {package : Package}
    (notGlibc : package ≠ .glibc) (notBash : package ≠ .bash) (subset : pending ⊆ linkPaths) :
    Preserves (Kept project host pending) (runBuilder project env package) := by
  have built : Preserves (Kept project host pending) (builder project env package) := by
    unfold builder
    split
    · contradiction
    · contradiction
    · exact considerate.kept notGlibc subset
  exact ⟨built, trivial⟩

/-- The directories that `build_glibc.sh` makes before it looks for glibc are
there. -/
theorem GlibcInstalled.mkdirs {tree : Host} (installed : GlibcInstalled project tree) (mode : Nat) :
    LinkTree.mkdirs mode [project.packagesBuildDir, project.rootfs []] tree = (.success, tree) := by
  apply LinkTree.mkdirs_unchanged
  intro path member
  rcases List.mem_pair.mp member with rfl | rfl
  · refine ⟨?_, installed.workshop⟩
    intro name listed
    rcases List.mem_append.mp listed with inProject | below
    · exact project.plain name inProject
    · have plain : ∀ name ∈ ["packages", "build"], LinkTree.Plain name := by decide
      exact plain name below
  · refine ⟨plain_rootfs (by simp), ?_⟩
    obtain ⟨content, mode, there⟩ := installed.files ["lib64", "libc.so.6"] (by decide)
    have split : project.rootfs ["lib64", "libc.so.6"] =
        project.rootfs [] ++ ["lib64"] ++ ["libc.so.6"] := by
      simp [Project.rootfs]
    have present : tree.node (project.rootfs [] ++ ["lib64"] ++ ["libc.so.6"]) ≠ none := by
      rw [← split, there]
      exact Option.some_ne_none _
    exact LinkTree.holdsDirectory_of_append (LinkTree.holdsDirectory_parent present)

/-- The test of `build_glibc.sh` succeeds. -/
theorem GlibcInstalled.isFile {tree : Host} (installed : GlibcInstalled project tree)
    {path : Path} (listed : path ∈ glibcFiles) : tree.isFile (project.rootfs path) = true := by
  have plain : ∀ path ∈ glibcFiles, path ≠ [] ∧ ∀ name ∈ path, LinkTree.Plain name := by decide
  obtain ⟨proper, names⟩ := plain path listed
  obtain ⟨content, mode, there⟩ := installed.files path listed
  have parent : tree.holdsDirectory (project.rootfs path).dropLast = true := by
    obtain ⟨above, name, rfl⟩ := List.eq_nil_or_concat' path |>.resolve_left proper
    rw [← rootfs_append, List.dropLast_concat]
    apply LinkTree.holdsDirectory_parent
    rw [rootfs_append, there]
    exact Option.some_ne_none _
  have notLink : tree.holdsLink (project.rootfs path) = false := by
    simp [LinkTree.holdsLink, there, Node.isLink]
  rw [LinkTree.isFile_here (plain_rootfs names) (by simp [Project.rootfs]) parent notLink, there]

/-- Where glibc is installed its builder goes nowhere outside the rootfs. -/
theorem buildGlibc_kept (installed : GlibcInstalled project host) (noClean : env.clean = false) :
    Throughout (Kept project host pending) (buildGlibc project env) (Kept project host pending)
      (Kept project host []) := by
  have tested : Preserves (Kept project host pending)
      (.when (fun tree => !tree.isFile project.glibcTarball) (.exit 1)) := ⟨trivial, trivial⟩
  have made : Preserves (Kept project host pending) (.run (LinkTree.mkdirs env.directoryMode
      [project.packagesBuildDir, project.rootfs []])) := by
    intro tree kept
    rw [(kept.installed installed).mkdirs]
    exact kept
  apply throughout_seq (tested.throughout fun _ kept => kept.nil)
  apply throughout_seq (made.throughout fun _ kept => kept.nil)
  refine throughout_seq (throughout_ite ?_ ?_) throughout_skip
  · have sanitized : Throughout (Kept project host pending) (sanitizeLibraries project)
        (Kept project host pending) (Kept project host []) :=
      sanitizeLibraries_kept.throughout fun _ kept => kept.nil
    exact sanitized.mono (fun _ holds => holds.1) fun _ holds => holds
  · rintro tree ⟨kept, missing⟩
    have found : glibcFiles.all (fun path => tree.isFile (project.rootfs path)) = true :=
      List.all_eq_true.mpr fun path listed => (kept.installed installed).isFile listed
    rw [found, noClean] at missing
    contradiction

theorem runGlibc_kept (installed : env.executable .glibc = true →
      GlibcInstalled project host ∧ env.clean = false) :
    Throughout (Kept project host pending) (runBuilder project env .glibc)
      (Kept project host pending) (Kept project host []) := by
  cases executable : env.executable .glibc with
  | false =>
      intro tree kept
      simp only [runBuilder, Script.when, visited, exec, executable, Bool.false_eq_true, if_false]
      constructor
      · intro reached member
        contradiction
      · rintro next ⟨⟩
        exact kept
  | true =>
      obtain ⟨there, noClean⟩ := installed executable
      exact throughout_when (buildGlibc_kept there noClean) fun _ kept => kept

theorem runBash_kept (considerate : Considerate project env) :
    Throughout (Kept project host (linkPaths.drop 7)) (runBuilder project env .bash)
      (Kept project host []) (Kept project host []) := by
  have built : Throughout (Kept project host (linkPaths.drop 7)) (builder project env .bash)
      (Kept project host []) (Kept project host []) := by
    apply throughout_seq (throughout_run (considerate.kept (by decide) (by decide))
      fun _ kept => kept.nil)
    apply throughout_seq
    · exact throughout_when (throughout_link linkSite_shell (by decide)) fun _ kept => kept.nil
    · exact throughout_skip
  exact throughout_when built fun _ kept => kept.nil

theorem configureIwd_kept : Preserves (Kept project host pending) (configureIwd project env) :=
  preserves_whenPresent fun source =>
    ⟨fun _ => (confined_mkdirs _ (by decide)).kept,
      fun _ => (confined_copyFile (by decide) source _).kept, trivial⟩

theorem configureDhcpcd_kept :
    Preserves (Kept project host pending) (configureDhcpcd project env) :=
  preserves_whenPresent fun source _ => (confined_copyFile (by decide) source _).kept

theorem configureXbps_kept : Preserves (Kept project host pending) (configureXbps project env) :=
  preserves_whenPresent fun source =>
    ⟨fun _ => (confined_mkdirs _ (by decide)).kept,
      fun _ => (confined_copyFile (by decide) source _).kept, trivial⟩

theorem enableService_kept (considerate : Considerate project env) {name : String}
    (daemon : name ∈ ["iwd", "dhcpcd"])
    (allowed : ∀ place ∈ linkPlaces (enabledPath name) [] (serviceTarget name),
      (role place).allows (serviceTarget name) = true ∧ place ∉ pending) :
    Throughout (Kept project host (enabledPath name :: pending)) (enableService project env name)
      (Kept project host pending) (Kept project host []) := by
  unfold enableService
  cases found : env.runit with
  | none => exact throughout_skip.mono (fun _ kept => kept) fun _ kept => kept.mono (by simp)
  | some config =>
      have proper : ∀ entry ∈ config.service name,
          entry.1 ≠ [] ∧ ∀ part ∈ entry.1, LinkTree.Plain part :=
        fun entry member => config.proper entry (List.mem_of_mem_filter member)
      have linkless := considerate.linkless_service found name
      have executable : ∀ name ∈ ["iwd", "dhcpcd"],
          ∀ path ∈ [["etc", "sv", name, "run"]], Direct path := by
        decide
      have site : LinkSite (enabledPath name) [serviceTarget name] [] := by
        apply linkSite_service
        rcases List.mem_pair.mp daemon with rfl | rfl <;> simp
      apply throughout_when
      · apply throughout_seq (throughout_run
          (fun _ => (confined_copyTree proper linkless).kept) fun _ kept => kept.nil)
        apply throughout_seq (throughout_tolerate
          (fun _ => (confined_chmods _ (executable name daemon)).kept) fun _ kept => kept.nil)
        apply throughout_seq (throughout_link site allowed)
        exact throughout_skip
      · exact fun _ kept => kept.mono (by simp)

theorem installProgram_kept {path : Path} (writable : Writable path) (source : Option Source)
    (name : String) :
    Preserves (Kept project host pending) (installProgram project env source name path) := by
  apply preserves_whenPresent
  intro source
  refine ⟨fun _ => (confined_copyFile writable source name).kept, ?_, trivial⟩
  intro tree
  apply (confined_chmods _ _).kept
  intro other member
  obtain rfl := List.mem_singleton.mp member
  exact writable.1

theorem installInstaller_kept :
    Preserves (Kept project host pending) (installInstaller project env) :=
  ⟨fun _ => (confined_mkdirs _ (by decide)).kept, installProgram_kept (by decide) _ _,
    installProgram_kept (by decide) _ _,
    preserves_whenPresent fun source =>
      ⟨fun _ => (confined_copyFile (by decide) source _).kept,
        fun _ => (confined_copyFile (by decide) source _).kept,
        fun _ => (confined_copyFile (by decide) source _).kept,
        fun _ => (confined_chmods _ (by decide)).kept, trivial⟩, trivial⟩

theorem runBuilder_throughout (considerate : Considerate project env) {package : Package}
    (notGlibc : package ≠ .glibc) (notBash : package ≠ .bash) (subset : pending ⊆ linkPaths) :
    Throughout (Kept project host pending) (runBuilder project env package)
      (Kept project host pending) (Kept project host []) :=
  (runBuilder_kept considerate notGlibc notBash subset).throughout fun _ kept => kept.nil

theorem prepare_kept (considerate : Considerate project env) :
    Throughout (Kept project host linkPaths) (prepare project env)
      (Kept project host (linkPaths.drop 5)) (Kept project host []) := by
  apply throughout_seq (makeTree_kept.throughout fun _ kept => kept.nil)
  apply throughout_seq (setupRunit_kept considerate)
  apply throughout_seq linkInit_kept
  apply throughout_seq (writeFstab_kept.throughout fun _ kept => kept.nil)
  exact throughout_skip

theorem populateBase_kept (considerate : Considerate project env)
    (installed : env.executable .glibc = true →
      GlibcInstalled project host ∧ env.clean = false) :
    Throughout (Kept project host linkPaths) (populateBase project env)
      (Kept project host (linkPaths.drop 5)) (Kept project host []) := by
  apply throughout_seq (prepare_kept considerate)
  apply throughout_seq (runGlibc_kept installed)
  apply throughout_seq (sanitizeLibraries_kept.throughout fun _ kept => kept.nil)
  exact throughout_skip

theorem populateRest_kept (considerate : Considerate project env) :
    Throughout (Kept project host (linkPaths.drop 5)) (populateRest project env)
      (Kept project host []) (Kept project host []) := by
  apply throughout_seq (runBuilder_throughout considerate (by decide) (by decide) (by decide))
  apply throughout_seq (runBuilder_throughout considerate (by decide) (by decide) (by decide))
  apply throughout_seq (runBuilder_throughout considerate (by decide) (by decide) (by decide))
  apply throughout_seq (configureIwd_kept.throughout fun _ kept => kept.nil)
  apply throughout_seq (enableService_kept considerate (by simp) (by decide))
  apply throughout_seq (runBuilder_throughout considerate (by decide) (by decide) (by decide))
  apply throughout_seq (configureDhcpcd_kept.throughout fun _ kept => kept.nil)
  apply throughout_seq (enableService_kept considerate (by simp) (by decide))
  apply throughout_seq (runBuilder_throughout considerate (by decide) (by decide) (by decide))
  apply throughout_seq (configureXbps_kept.throughout fun _ kept => kept.nil)
  apply throughout_seq (runBuilder_throughout considerate (by decide) (by decide) (by decide))
  apply throughout_seq (runBash_kept considerate)
  apply throughout_seq (runBuilder_throughout considerate (by decide) (by decide) (by decide))
  apply throughout_seq (runBuilder_throughout considerate (by decide) (by decide) (by decide))
  exact throughout_skip

theorem populate_kept (considerate : Considerate project env)
    (installed : env.executable .glibc = true →
      GlibcInstalled project host ∧ env.clean = false) :
    Throughout (Kept project host linkPaths) (populate project env) (Kept project host [])
      (Kept project host []) := by
  have builders : Throughout (Kept project host linkPaths) (runBuilders project env)
      (Kept project host []) (Kept project host []) := by
    apply throughout_seq (populateBase_kept considerate installed)
    apply throughout_seq (runBuilder_throughout considerate (by decide) (by decide) (by decide))
    apply throughout_seq (populateRest_kept considerate)
    exact throughout_skip
  exact throughout_seq builders (installInstaller_kept.throughout fun _ kept => kept)

end Run

/-! ## Repeated runs -/

/-- The tree after one run of the script. -/
def populateStep (project : Project) (tree : Host) (env : Environment) : Host :=
  (exec (populate project env) tree).state

/-- No command of the run has changed anything outside the project. -/
def HostUntouched (project : Project) (tree : Host) (env : Environment) : Prop :=
  ∀ reached ∈ visited (populate project env) tree, AgreeOutside project tree reached

/-- The run will not build glibc, and no absolute link that it is about to replace
leads to a directory of the host. -/
structure HostClear (project : Project) (tree : Host) (env : Environment) : Prop where
  considerate : Considerate project env
  installed : env.executable .glibc = true → GlibcInstalled project tree ∧ env.clean = false
  harmless : ∀ path ∈ linkPaths, Harmless project tree tree path

section Runs

variable {project : Project} {tree : Host} {env : Environment}

/-- What every command leaves alone the run leaves alone. -/
theorem HostUntouched.step (untouched : HostUntouched project tree env) :
    AgreeOutside project tree (populateStep project tree env) := by
  rcases state_exec (populate project env) tree with same | member
  · rw [populateStep, same]
    exact fun _ _ => rfl
  · exact untouched _ member

theorem HostClear.kept (clear : HostClear project tree env) (tame : Tame project tree) :
    Kept project tree linkPaths tree :=
  ⟨tame, fun _ _ => rfl, id, clear.harmless⟩

theorem HostClear.untouched (clear : HostClear project tree env) (tame : Tame project tree) :
    HostUntouched project tree env := by
  intro reached member
  have kept := populate_kept clear.considerate clear.installed tree (clear.kept tame)
  exact (kept.1 reached member).outside

theorem HostClear.step (clear : HostClear project tree env) (tame : Tame project tree) :
    Kept project tree [] (populateStep project tree env) :=
  (populate_kept clear.considerate clear.installed).state (fun _ kept => kept.nil) tree
    (clear.kept tame)

end Runs

/-! ## Building on two hosts -/

theorem smallBuild_writes {package : Package} (tree : Host) :
    LinkTree.Writes (fun place node => place = smallProject.rootfs ["sbin", "init"] ∧
      node = .link busyboxTarget) tree (smallBuild.install package tree).2 := by
  cases package with
  | busybox =>
      apply Command.ofOption_snd fun next : Host => LinkTree.Writes _ tree next
      · exact LinkTree.Writes.refl tree
      · intro next placed
        exact LinkTree.writes_set placed
  | _ => exact LinkTree.Writes.refl tree

theorem smallBuild_outside (package : Package) (tree : Host) :
    AgreeOutside smallProject tree (smallBuild.install package tree).2 := by
  intro path beyond
  rcases smallBuild_writes tree path with same | ⟨node, _, rfl, _⟩
  · exact same
  · exact absurd (project_prefix_rootfs _) beyond

theorem smallBuild_fitting {package : Package} (tree : Host) :
    LinkTree.Writes
      (fun place node => ∃ path, place = smallProject.rootfs path ∧ (role path).Fits node)
      tree (smallBuild.install package tree).2 := by
  apply (smallBuild_writes tree).mono
  rintro place node ⟨rfl, rfl⟩
  exact ⟨["sbin", "init"], rfl, Role.fits_of_allows (by decide)⟩

theorem smallBuild_considerate : Considerate smallProject smallBuild := by
  constructor
  · intro package tree _ tame
    exact tame.of_writes (smallBuild_fitting tree)
  · intro package tree _ _
    exact smallBuild_outside package tree
  · intro package tree _ _ path _ target absolute there
    rcases smallBuild_writes tree (smallProject.rootfs path) with same | ⟨node, placed, _, rfl⟩
    · rw [← same]
      exact there
    · rw [placed] at there
      cases there
      contradiction
  · intro package tree _ _ installed
    exact installed.of_writes (smallBuild_fitting tree)
  · intro config found
    have equal : smallRunit = config := Option.some.inj found
    subst equal
    decide

/-- A machine that itself runs the system being built. -/
def aqjHost : Host :=
  .ofEntries [
    (["aqj"], .directory 0o755),
    (["etc"], .directory 0o755),
    (["etc", "sv"], .directory 0o755),
    (["etc", "sv", "getty-tty1"], .directory 0o755)]

/-- A path whose first name is missing on the host leads nowhere. -/
theorem noHostDirectory_of_missing {project : Project} {host : Host} {first : String}
    (plain : LinkTree.Plain first) (beyond : ¬ project.path <+: [first])
    (missing : host.node [first] = none) (rest : Path) :
    NoHostDirectory project host (first :: rest) := by
  intro tree agrees
  have absent : tree.node [first] = none := by rw [agrees _ beyond, missing]
  rw [LinkTree.isDirectory, LinkTree.resolve_eq, LinkTree.walkWith_cons plain, List.nil_append,
    absent]
  by_cases last : rest = []
  · simp [last, LinkTree.holdsDirectory, absent]
  · simp [last]

/-- On a host with nothing but the project every link is harmless. -/
theorem hostClear_of_bare {tree : Host} (tame : Tame smallProject tree)
    (bare : ∀ name ∈ ["etc", "sbin", "bin"], tree.node [name] = none) :
    HostClear smallProject tree smallBuild := by
  refine ⟨smallBuild_considerate, fun executable => absurd executable (by decide), ?_⟩
  intro path member target there absolute
  obtain ⟨⟨site, targets⟩, listed, rfl⟩ := List.mem_map.mp member
  have checked : ∀ entry ∈ links, role entry.1 = .link entry.2 ∧
      ∀ target ∈ entry.2, target.absolute = true →
        ∃ name ∈ ["etc", "sbin", "bin"], target.names.head? = some name := by
    decide
  obtain ⟨linked, heads⟩ := checked _ listed
  have fits := tame.fits site (.link target) there
  rw [linked] at fits
  obtain ⟨name, known, head⟩ := heads target (fits target rfl) absolute
  obtain ⟨rest, names⟩ := List.head?_eq_some_iff.mp head
  rw [names]
  have plain : ∀ name ∈ ["etc", "sbin", "bin"], LinkTree.Plain name ∧
      ¬ smallProject.path <+: [name] := by
    decide
  exact noHostDirectory_of_missing (plain name known).1 (plain name known).2 (bare name known) rest

/-- A tree with nothing but the project and an empty rootfs. -/
def bareHost : Host :=
  .ofEntries [(["aqj"], .directory 0o755), (["aqj", "rootfs"], .directory 0o755)]

theorem bareHost_tame : Tame smallProject bareHost := by
  constructor
  · decide +kernel
  · intro path node there
    rcases LinkTree.mem_of_node_ofEntries there with root | listed
    · simp [Project.rootfs, smallProject] at root
    · simp [Project.rootfs, smallProject] at listed
      obtain ⟨rfl, rfl⟩ := listed
      rfl

theorem bareHost_bare : ∀ name ∈ ["etc", "sbin", "bin"], bareHost.node [name] = none := by
  decide +kernel

end AqjOs.Rootfs
