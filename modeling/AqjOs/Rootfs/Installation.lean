import AqjOs.Rootfs.Sections

/-!
# The builders, the network and the installer

A package is seen through its manifest: on every tree that is ready for it, its
install step ends the same way and puts the nodes of the manifest in their
places.  With such packages the sections after the runit configuration settle,
up to the builder that fails if there is one.
-/

namespace AqjOs.Rootfs

open AqjOs.Files AqjOs.Shell AqjOs.Shell.Script

/-- What a package does to a path: a directory is made if it is missing, anything
else is replaced. -/
def overlay (manifest : Manifest) : Effect :=
  fun path =>
    match manifest path with
    | none => id
    | some (.directory mode) => .create (.directory mode)
    | some new => .replace new

/-- The packages as the script relies on them: they bring what their places admit,
no services and nothing for `runsvdir`, and their install steps overlay the tree
with their manifest and end the same way each time.  The builder of glibc, which works
outside the project, is not executable. -/
structure Packaged (setting : Setting) (succeeds : Package → Bool) : Prop where
  glibc : setting.env.executable .glibc = false
  admits : ∀ package path node, setting.manifest package path = some node →
    (slot setting path).Admits (some node)
  outside : ∀ package path, (setting.manifest package path).isSome = true →
    role path ≠ .service ∧ ¬ ["etc", "runit", "runsvdir"] <+: path
  status : ∀ package tree, Ready setting baseDirectories tree →
    (setting.env.install package tree).1 = Status.ofBool (succeeds package)
  installs : ∀ package tree, Ready setting baseDirectories tree →
    Acted setting.project (overlay (setting.manifest package)) tree
      (setting.env.install package tree).2

section Packages

variable {setting : Setting} {succeeds : Package → Bool} {known : List Path} {path : Path}

/-- Where a directory may be, the changes are of the style of directories. -/
theorem style_of_admits_directory {mode : Nat}
    (admits : (slot setting path).Admits (some (.directory mode)))
    (notService : role path ≠ .service) : style setting.env path = .made := by
  cases found : role path with
  | directory => exact style_directory found
  | file =>
      rw [slot_file found] at admits
      have impossible := (admits _ rfl).1
      contradiction
  | link targets => rw [style, found]
  | service => contradiction
  | free =>
      apply style_free found
      intro listed
      rw [slot_library listed] at admits
      have impossible := (admits _ rfl).1
      contradiction

theorem Packaged.tidy (packaged : Packaged setting succeeds) (package : Package) :
    Tidy setting (overlay (setting.manifest package)) := by
  constructor
  · constructor
    · intro path node possible
      unfold overlay
      rcases brought : setting.manifest package path with _ | (mode | ⟨content, mode⟩ | target)
      · exact possible
      · have admits := packaged.admits package path _ brought
        cases node with
        | none => exact admits
        | some old => exact possible
      · exact packaged.admits package path _ brought
      · exact packaged.admits package path _ brought
    · intro path
      unfold overlay
      rcases setting.manifest package path with _ | (mode | ⟨content, mode⟩ | target)
      · exact Change.keeps_id
      · exact Change.keeps_create _
      · exact Change.keeps_replace _
      · exact Change.keeps_replace _
  · intro path
    unfold overlay
    rcases brought : setting.manifest package path with _ | (mode | ⟨content, mode⟩ | target)
    · exact .inr (.inl fun _ _ => rfl)
    · have admits := packaged.admits package path _ brought
      obtain ⟨notService, _⟩ := packaged.outside package path (by rw [brought]; rfl)
      rw [style_of_admits_directory admits notService]
      exact .inr (.inr ⟨_, fun _ _ => rfl⟩)
    · exact .inl fun _ _ _ _ => rfl
    · exact .inl fun _ _ _ _ => rfl

theorem Packaged.apart (packaged : Packaged setting succeeds) (package : Package)
    (reserved : Reserved setting.env path) : overlay (setting.manifest package) path = id := by
  have missing : setting.manifest package path = none := by
    rw [← Option.not_isSome_iff_eq_none]
    intro brought
    apply (packaged.outside package path brought).2
    unfold Reserved at reserved
    split at reserved
    · rcases List.mem_pair.mp reserved with rfl | rfl
      · exact ⟨["current"], rfl⟩
      · exact ⟨["default", "default"], rfl⟩
    · obtain ⟨⟨rest, rfl⟩, _⟩ := reserved
      exact ⟨"default" :: rest, rfl⟩
  rw [overlay, missing]

theorem Packaged.settles_install (packaged : Packaged setting succeeds) (package : Package)
    (base : baseDirectories ⊆ known) :
    Settles setting (Reserved setting.env) known (.run (setting.env.install package))
      (succeeds package) known := by
  refine ⟨[overlay (setting.manifest package)], ?_, ?_⟩
  · intro effect member
    obtain rfl := List.mem_singleton.mp member
    exact ⟨packaged.tidy package, fun path => packaged.apart package⟩
  · intro tree ready
    have status := packaged.status package tree (ready.mono base)
    have acted : Acted setting.project (Effect.all [overlay (setting.manifest package)]) tree
        (setting.env.install package tree).2 :=
      packaged.installs package tree (ready.mono base)
    have next := ready.acted (packaged.tidy package).toNeat acted
    rcases ended : setting.env.install package tree with ⟨result, last⟩
    rw [ended] at status acted next
    obtain rfl : result = Status.ofBool (succeeds package) := status
    cases verdict : succeeds package with
    | true =>
        rw [verdict, Status.ofBool_true] at ended
        simp only [exec, ended]
        exact ⟨rfl, acted, fun _ => next⟩
    | false =>
        rw [verdict, Status.ofBool_false] at ended
        simp only [exec, ended]
        exact ⟨rfl, acted, fun impossible => absurd impossible (by simp)⟩

/-- Whether the script goes on after a builder. -/
def goesOnAfter (setting : Setting) (succeeds : Package → Bool) (package : Package) : Bool :=
  !setting.env.executable package || succeeds package

theorem Packaged.settles_runBuilder (packaged : Packaged setting succeeds)
    (hostFree : HostFree setting) (package : Package) (base : baseDirectories ⊆ known) :
    Settles setting (Reserved setting.env) known (runBuilder setting.project setting.env package)
      (goesOnAfter setting succeeds package) known := by
  by_cases glibc : package = .glibc
  · subst glibc
    have skipped : setting.env.executable .glibc = false := packaged.glibc
    rw [runBuilder, skipped, goesOnAfter, skipped]
    exact settles_when_sure (fun _ _ => rfl) nofun
  have built : Settles setting (Reserved setting.env) known
      (builder setting.project setting.env package) (succeeds package) known := by
    unfold builder
    split
    · contradiction
    · have linked : Settles setting (Reserved setting.env) known
          (.block [.when (fun _ => setting.env.linux)
            (.tolerate (link setting.project bashTarget ["bin", "sh"]))]) true known := by
        apply settles_then
        · exact settles_when_sure (fun _ _ => rfl) fun _ =>
            settles_remoteLink hostFree linkSite_shell (by decide) (by decide) (by decide)
              (base (by decide)) (by decide)
        · exact settles_skip
      have whole := settles_seq (packaged.settles_install .bash base) linked
      rwa [Bool.and_true] at whole
    · exact packaged.settles_install _ base
  exact settles_when (fun _ _ => rfl) fun _ => built

end Packages

section Sections

variable {setting : Setting} {succeeds : Package → Bool} {known : List Path}

/-! ## Section 5: the linker scripts -/

theorem settles_sanitizeLibrary {path : Path} (listed : path ∈ libraries)
    (there : ["usr", "lib"] ∈ known) :
    Settles setting (Reserved setting.env) known (sanitizeLibrary setting.project path) true
      known := by
  have checked : ∀ path ∈ libraries, path ≠ [] ∧ (∀ name ∈ path, LinkTree.Plain name) ∧
      path.dropLast = ["usr", "lib"] ∧ role path = .free ∧ Remote path := by
    decide
  obtain ⟨proper, plain, parent, free, remote⟩ := checked path listed
  have library : slot setting path = .library := slot_library listed
  have holder : slot setting path.dropLast = .directory := by
    rw [parent]
    exact slot_directory (by decide)
  have filePath : FilePath setting known path :=
    ⟨⟨proper, plain, by rw [parent]; exact there, holder⟩, .inr library⟩
  have tidy : Tidy setting (Effect.single path (Change.edit sanitize)) := by
    apply Neat.tidy_single
    · apply neat_single
      · rw [library]
        exact fun _ possible => Slot.admits_edit possible
      · exact Change.keeps_edit _
    · rw [style, free]
      simp only [if_pos listed]
      exact .inr (.inr fun _ _ => rfl)
  apply settles_single tidy remote.not_reserved
  intro tree ready
  have plainPath : ∀ name ∈ setting.project.rootfs path, LinkTree.Plain name :=
    plain_rootfs plain
  have properPath : setting.project.rootfs path ≠ [] := by simp [Project.rootfs]
  have above := filePath.above ready
  rw [sanitizeLibrary, exec_when,
    LinkTree.isFile_here plainPath properPath above (filePath.holdsLink ready)]
  rcases ready.fit.file_cases (.inr library) with missing | ⟨content, mode, there⟩
  · rw [missing]
    refine ⟨rfl, acted_of_fixed ?_, fun _ => ready⟩
    rw [missing]
    rfl
  · obtain ⟨next, set⟩ := filePath.exists_set ready (sanitize content) mode
    have edited : LinkTree.editInPlace sanitize (setting.project.rootfs path) tree = some next := by
      rw [LinkTree.editInPlace_here plainPath properPath above sanitize there]
      exact set
    have acted : Acted setting.project
        (Effect.all [Effect.single path (Change.edit sanitize)]) tree next := by
      apply acted_of_set set
      rw [there]
      rfl
    rw [there]
    simp only [if_true, exec, Command.ofOption, edited]
    exact ⟨rfl, acted, fun _ => ready.acted tidy.toNeat acted⟩

/-! ## Sections 9 to 16: the network -/

theorem settles_configureDhcpcd (there : ["etc"] ∈ known) :
    Settles setting (Reserved setting.env) known
      (configureDhcpcd setting.project setting.env) true known :=
  settles_file (by simp [copies]) there

/-- A configuration file in a directory of its own. -/
theorem settles_configureIn {directory path : Path} {source : Option Source} {name : String}
    (makes : Makes directory ∧ ∀ above ∈ directory.inits, Remote above)
    (parent : path.dropLast = directory) (member : (path, source) ∈ copies setting.env) :
    Settles setting (Reserved setting.env) known
      (whenPresent source fun source => .block [
        .run (mkdir setting.project setting.env [directory]),
        .run (copyFile setting.project source name path)]) true known := by
  cases source with
  | none => exact settles_skip
  | some source =>
      apply settles_then (settles_mkdirs (by simpa using makes))
      have there : path.dropLast ∈ [directory].flatMap List.inits ++ known := by
        rw [parent]
        simp
      apply settles_then (settles_file member there)
      exact settles_skip.mono (fun _ old => old) (List.subset_append_right _ _)

theorem settles_configureIwd :
    Settles setting (Reserved setting.env) known
      (configureIwd setting.project setting.env) true known :=
  settles_configureIn (by decide +kernel) rfl (by simp [copies])

theorem settles_configureXbps :
    Settles setting (Reserved setting.env) known
      (configureXbps setting.project setting.env) true known :=
  settles_configureIn (by decide +kernel) rfl (by simp [copies])

theorem lookup_of_hasService (orderly : Orderly setting.env) {config : RunitConfig}
    (configured : setting.env.runit = some config) {name : String}
    (present : config.hasService name = true) :
    ∃ mode, setting.env.services.lookup [name] = some (.directory mode) := by
  have same : setting.env.services = config.services.getD [] := by
    rw [Environment.services, configured]
    rfl
  rw [RunitConfig.hasService, ← same] at present
  rcases found : setting.env.services.lookup [name] with _ | (mode | ⟨content, mode⟩ | target)
  · rw [found] at present
    contradiction
  · exact ⟨mode, rfl⟩
  · rw [found] at present
    contradiction
  · have impossible := orderly.linkless _ (mem_of_lookup found)
    contradiction

theorem settles_enableService (orderly : Orderly setting.env) (hostFree : HostFree setting)
    {name : String} (daemon : name ∈ ["iwd", "dhcpcd"]) (base : baseDirectories ⊆ known) :
    Settles setting (Reserved setting.env) known
      (enableService setting.project setting.env name) true known := by
  unfold enableService
  cases configured : setting.env.runit with
  | none => exact settles_skip
  | some config =>
      apply settles_when_sure fun _ _ => rfl
      intro present
      obtain ⟨mode, found⟩ := lookup_of_hasService orderly configured present
      let after := (config.service name).map (fun entry => servicePath entry.1) ++ known
      have inService : ([name], .directory mode) ∈ config.service name := by
        apply mem_of_lookup
        rw [lookup_service orderly configured, found]
      have copies : Does setting known (LinkTree.copyTree (config.service name)
          (setting.project.rootfs ["etc", "sv"])) true
          (copyEffects (serviceEntries (config.service name))) after :=
        does_copyTree orderly (orderly.listed_service configured name) (base (by decide))
      have plain : ∀ part ∈ servicePath [name, "run"], LinkTree.Plain part := by
        rcases List.mem_pair.mp daemon with rfl | rfl
        · decide
        · decide
      have holder : slot setting (servicePath [name]) = .directory := by
        rw [slot_servicePath (by simp), serviceSlot_directory found]
      have placed : Placed setting after (servicePath [name, "run"]) :=
        ⟨by simp [servicePath], plain,
          List.mem_append_left _ (List.mem_map.mpr ⟨_, inService, rfl⟩), holder⟩
      have changes : Does setting after
          (chmodExecutable setting.project setting.env [servicePath [name, "run"]]) false
          (markEffects (· ||| setting.env.executeBits) [servicePath [name, "run"]]) after := by
        apply does_chmodExecutable
        · intro path member
          obtain rfl := List.mem_singleton.mp member
          exact ⟨placed, slot_run orderly daemon⟩
        · simp
      have copying : Settles setting (Reserved setting.env) known
          (.seq (.run (LinkTree.copyTree (config.service name)
              (setting.project.rootfs ["etc", "sv"])))
            (.tolerate (chmodExecutable setting.project setting.env
              [servicePath [name, "run"]]))) true after := by
        refine (deposit_service orderly configured daemon).settles
          (distinct_serviceEntries (orderly.listed_service configured name).distinct) ?_ ?_
          (acts_seq (acts_run copies) (acts_tolerate changes))
        · intro path node
          rw [all_markEffects (by simp)]
          simp
        · intro path reserved
          refine ⟨lookup_serviceEntries_none (reserved_not_service reserved), ?_⟩
          rw [decide_eq_false_iff_not, List.mem_singleton]
          exact reserved_not_service reserved _
      apply settles_pair copying
      apply settles_then
      · apply settles_enable hostFree _ (by rw [configured]; rfl) _ (.inr rfl)
        · rcases List.mem_pair.mp daemon with rfl | rfl
          · simp
          · simp
        · exact List.mem_append_right _ (base (by decide))
      · exact settles_skip.mono (fun _ old => old) (List.subset_append_right _ _)

/-! ## Section 21: the installer -/

theorem settles_installProgram {path : Path} {source : Option Source} {name : String}
    (member : (path, source) ∈ copies setting.env) (there : path.dropLast ∈ known) :
    Settles setting (Reserved setting.env) known
      (installProgram setting.project setting.env source name path) true known := by
  unfold installProgram
  cases source with
  | none => exact settles_skip
  | some source =>
      have listed := copyPath_of_mem member
      have changes : Does setting (path :: known)
          (chmodExecutable setting.project setting.env [path]) true
          (markEffects (· ||| setting.env.executeBits) [path]) (path :: known) := by
        apply does_chmodExecutable
        · intro other inList
          obtain rfl := List.mem_singleton.mp inList
          exact ⟨placed_copy listed (by simp [there]), slot_copy listed⟩
        · simp
      have acts : Acts setting known (.block [
          .run (copyFile setting.project source name path),
          .run (chmodExecutable setting.project setting.env [path])])
          (copyEffects (fileEntries [(path, source)]) ++
            markEffects (· ||| setting.env.executeBits) [path]) true (path :: known) :=
        acts_seq (acts_copyFile listed there source name)
          (acts_seq (acts_run changes) acts_skip)
      refine settles_files ?_ ?_ ?_ ?_ ?_ (acts.mono (fun _ old => old) (by simp))
      · simp
      · simp
      · simpa using member
      · simp [fileEntries]
      · simpa using listed

theorem settles_installDesktopEntry
    (there : [["usr", "share", "applications"], ["root", "Desktop"], ["home", "aqj", "Desktop"]] ⊆
      known) :
    Settles setting (Reserved setting.env) known
      (installDesktopEntry setting.project setting.env) true known := by
  unfold installDesktopEntry
  cases present : setting.env.desktopEntry with
  | none => exact settles_skip
  | some source =>
      let shared : Path := ["usr", "share", "applications", desktopName]
      let root : Path := ["root", "Desktop", desktopName]
      let user : Path := ["home", "aqj", "Desktop", desktopName]
      have listed : ∀ path ∈ [shared, root, user], path ∈ copyPaths ∧
          path.dropLast ∈ [["usr", "share", "applications"], ["root", "Desktop"],
            ["home", "aqj", "Desktop"]] := by
        decide
      have copy (path : Path) (member : path ∈ [shared, root, user]) (more : List Path) :
          Acts setting (more ++ known)
            (.run (copyFile setting.project source desktopName path))
            (copyEffects (fileEntries [(path, source)])) true (path :: (more ++ known)) := by
        obtain ⟨inCopies, parent⟩ := listed path member
        exact acts_copyFile inCopies (List.mem_append_right _ (there parent)) source desktopName
      have changes : Does setting (user :: root :: shared :: known)
          (chmodExecutable setting.project setting.env [root, user]) false
          (markEffects (· ||| setting.env.executeBits) [root, user])
          (user :: root :: shared :: known) := by
        apply does_chmodExecutable
        · intro path member
          obtain ⟨inCopies, parent⟩ := listed path (by simp at member ⊢; tauto)
          exact ⟨placed_copy inCopies (by simp [there parent]), slot_copy inCopies⟩
        · simp
      have acts : Acts setting known (.block [
          .run (copyFile setting.project source desktopName shared),
          .run (copyFile setting.project source desktopName root),
          .run (copyFile setting.project source desktopName user),
          .tolerate (chmodExecutable setting.project setting.env [root, user])])
          (copyEffects (fileEntries [(shared, source), (root, source), (user, source)]) ++
            markEffects (· ||| setting.env.executeBits) [root, user]) true
          known := by
        have chain := acts_seq (copy shared (by simp) []) <| acts_seq (copy root (by simp) [shared])
          <| acts_seq (copy user (by simp) [root, shared])
          <| acts_seq (acts_tolerate changes) acts_skip
        exact chain.mono (fun _ old => old) (fun _ old => by simp [old])
      have distinct : [shared, root, user].Nodup := by decide
      refine settles_files ?_ (by decide) ?_ ?_ ?_ acts
      · exact distinct
      · simp [copies, present, shared, root, user]
      · intro path member absent
        have here : (path, source.node) ∈
            fileEntries [(shared, source), (root, source), (user, source)] := by
          rcases List.mem_pair.mp member with rfl | rfl
          · simp [fileEntries]
          · simp [fileEntries]
        exact absurd absent (lookup_ne_none here)
      · intro path member
        exact (listed path (by simp at member ⊢; tauto)).1

theorem settles_installInstaller :
    Settles setting (Reserved setting.env) known
      (installInstaller setting.project setting.env) true known := by
  have made : [["sbin"], ["usr", "share", "applications"], ["root", "Desktop"],
      ["home", "aqj", "Desktop"]] ⊆
      [["sbin"], ["usr", "share", "applications"], ["root", "Desktop"],
        ["home", "aqj", "Desktop"]].flatMap List.inits := by
    decide +kernel
  apply settles_then (settles_mkdirs (by decide +kernel))
  apply settles_then (settles_installProgram (by simp [copies])
    (List.mem_append_left _ (made (by decide))))
  apply settles_then (settles_installProgram (by simp [copies])
    (List.mem_append_left _ (made (by decide))))
  apply settles_then
  · apply settles_installDesktopEntry
    intro path member
    exact List.mem_append_left _ (made (List.mem_cons_of_mem _ member))
  exact settles_skip.mono (fun _ old => old) (List.subset_append_right _ _)

end Sections

end AqjOs.Rootfs
