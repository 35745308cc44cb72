import AqjOs.Rootfs.ServiceTree

/-!
# The sections of the script

Every section of the script but the link from `runsvdir/current` settles: from
each tree that is ready for it, it has the same tidy effects, and none on the
paths that this link depends on.
-/

namespace AqjOs.Rootfs

open AqjOs.Files AqjOs.Shell AqjOs.Shell.Script

/-- The paths that are left alone by all sections: what `ln -sf default current`
writes, or, if there is no configuration to link, everything in the directory of
the default services. -/
def Reserved (env : Environment) (path : Path) : Prop :=
  if env.runit.isSome then path ∈ [currentPath, loopPath]
  else defaultDirectory <+: path ∧ path ≠ defaultDirectory

/-- A path that is never reserved. -/
def Remote (path : Path) : Prop :=
  path ∉ [currentPath, loopPath] ∧ (defaultDirectory <+: path → path = defaultDirectory)

instance (path : Path) : Decidable (Remote path) :=
  inferInstanceAs (Decidable (_ ∧ _))

theorem Remote.not_reserved {env : Environment} {path : Path} (remote : Remote path) :
    ¬ Reserved env path := by
  unfold Reserved
  split
  · exact remote.1
  · rintro ⟨below, proper⟩
    exact proper (remote.2 below)

theorem remote_servicePath (path : Path) : Remote (servicePath path) := by
  constructor
  · simp [servicePath, currentPath, loopPath, defaultDirectory]
  · rintro ⟨rest, whole⟩
    simp [servicePath, defaultDirectory] at whole

section Sections

variable {setting : Setting} {known : List Path} {path : Path} {sure : Bool}

theorem settles_mkdirs {paths : List Path}
    (makes : ∀ path ∈ paths, Makes path ∧ ∀ above ∈ path.inits, Remote above) :
    Settles setting (Reserved setting.env) known (.run (mkdir setting.project setting.env paths))
      true (paths.flatMap List.inits ++ known) :=
  settles_mkdir (fun path member => (makes path member).1)
    fun path member above onTheWay => ((makes path member).2 above onTheWay).not_reserved

/-- A command with one tidy effect on a remote path. -/
theorem settles_single {script : Script Host} {change : Change String} {after : List Path}
    (tidy : Tidy setting (Effect.single path change)) (apart : ¬ Reserved setting.env path)
    (acts : Acts setting known script [Effect.single path change] true after) :
    Settles setting (Reserved setting.env) known script true after := by
  refine ⟨_, ?_, acts⟩
  intro effect member
  obtain rfl := List.mem_singleton.mp member
  exact ⟨tidy, fun other reserved => Effect.single_apart apart reserved⟩

/-! ## Section 1 -/

/-- The directories that are there after the first section. -/
def baseDirectories : List Path :=
  [[], ["bin"], ["sbin"], ["etc"], ["usr"], ["usr", "lib"], ["etc", "runit"],
    ["etc", "runit", "runsvdir"], defaultDirectory, ["etc", "sv"]]

theorem tidy_openDirectory (directory : role path = .directory) (mode : Nat) :
    Tidy setting (Effect.single path (Change.replace (.directory mode))) := by
  apply tidy_replace
  rw [slot_directory directory]
  rintro node ⟨⟩
  rfl

theorem settles_openDirectories (there : [["tmp"], ["var", "tmp"], [], ["var"]] ⊆ known) :
    Settles setting (Reserved setting.env) known
      (.tolerate (LinkTree.chmods (fun _ => 0o1777)
        ([["tmp"], ["var", "tmp"]].map setting.project.rootfs))) true known := by
  have opens : ∀ path ∈ [["tmp"], ["var", "tmp"]],
      Does setting known
        (.ofOption (LinkTree.chmod (fun _ => 0o1777) (setting.project.rootfs path))) false
        [Effect.single path (Change.replace (.directory 0o1777))] known := by
    intro path member
    have checked : ∀ path ∈ [["tmp"], ["var", "tmp"]], path ≠ [] ∧
        (∀ name ∈ path, LinkTree.Plain name) ∧
        path.dropLast ∈ [["tmp"], ["var", "tmp"], [], ["var"]] ∧
        path ∈ [["tmp"], ["var", "tmp"], [], ["var"]] ∧
        role path.dropLast = .directory ∧ role path = .directory := by
      decide
    obtain ⟨proper, plain, parent, present, holder, directory⟩ := checked path member
    exact does_openDirectory (slot_directory directory)
      ⟨proper, plain, there parent, slot_directory holder⟩ (there present) _
  refine ⟨_, ?_, acts_tolerate (does_each_cons (opens ["tmp"] (by simp))
    (does_each_cons (opens ["var", "tmp"] (by simp)) does_each_nil))⟩
  intro effect member
  have which : effect = Effect.single ["tmp"] (Change.replace (.directory 0o1777)) ∨
      effect = Effect.single ["var", "tmp"] (Change.replace (.directory 0o1777)) := by
    simpa using member
  have directories : ∀ path ∈ [["tmp"], ["var", "tmp"]],
      role path = .directory ∧ Remote path := by
    decide
  have opened : ∀ path ∈ [["tmp"], ["var", "tmp"]],
      Tidy setting (Effect.single path (Change.replace (.directory 0o1777))) ∧
        ∀ other, Reserved setting.env other →
          Effect.single path (Change.replace (.directory 0o1777)) other = id := by
    intro path member
    obtain ⟨directory, remote⟩ := directories path member
    refine ⟨tidy_openDirectory directory _, ?_⟩
    intro other reserved
    exact Effect.single_apart remote.not_reserved reserved
  rcases which with rfl | rfl
  · exact opened _ (by simp)
  · exact opened _ (by simp)

theorem settles_makeTree :
    Settles setting (Reserved setting.env) [] (makeTree setting.project setting.env) true
      baseDirectories := by
  apply settles_then (settles_mkdirs (by decide +kernel))
  apply settles_then (settles_mkdirs (by decide +kernel))
  apply settles_then (settles_mkdirs (by decide +kernel))
  apply settles_then (settles_openDirectories (by decide +kernel))
  apply settles_then (settles_mkdirs (by decide +kernel))
  apply settles_then (settles_mkdirs (by decide +kernel))
  apply settles_then (settles_mkdirs (by decide +kernel))
  exact settles_skip.mono (fun _ member => member) (by decide +kernel)

/-! ## Project files -/

/-- The destinations of the project files. -/
def copyPaths : List Path :=
  [["etc", "runit", "1"], ["etc", "runit", "2"], ["etc", "runit", "3"],
    ["etc", "runit", "ctrlaltdel"], ["etc", "runit", "hostname"], ["etc", "hostname"],
    ["etc", "iwd", "main.conf"], ["etc", "dhcpcd.conf"],
    ["etc", "xbps.d", "00-repository-main.conf"], ["sbin", "aqj-install"],
    ["sbin", "aqj-install-gui"], ["usr", "share", "applications", desktopName],
    ["root", "Desktop", desktopName], ["home", "aqj", "Desktop", desktopName]]

theorem copies_paths (env : Environment) : (copies env).map Prod.fst = copyPaths :=
  rfl

theorem copyPath_checked : ∀ path ∈ copyPaths, role path = .file ∧ path ≠ ["etc", "fstab"] ∧
    path ≠ [] ∧ (∀ name ∈ path, LinkTree.Plain name) ∧ role path.dropLast = .directory ∧
    Remote path := by
  decide +kernel

theorem copyPath_of_mem {env : Environment} {source : Option Source}
    (member : (path, source) ∈ copies env) : path ∈ copyPaths := by
  rw [← copies_paths env]
  exact List.mem_map.mpr ⟨_, member, rfl⟩

theorem style_copy {env : Environment} {source : Option Source}
    (member : (path, source) ∈ copies env) :
    style env path =
      match source with
      | some source => .text source.content (· ||| env.executeBits)
      | none => .mode (· ||| env.executeBits) := by
  have distinct : ((copies env).map Prod.fst).Nodup := by
    rw [copies_paths]
    decide +kernel
  have found := lookup_of_mem distinct member
  obtain ⟨file, notFstab, _⟩ := copyPath_checked path (copyPath_of_mem member)
  rw [style, file]
  simp only [if_neg notFstab, found]
  cases source with
  | none => rfl
  | some source => rfl

theorem slot_copy (member : path ∈ copyPaths) : slot setting path = .file :=
  slot_file (copyPath_checked path member).1

theorem placed_copy (member : path ∈ copyPaths) (there : path.dropLast ∈ known) :
    Placed setting known path := by
  obtain ⟨_, _, proper, plain, holder, _⟩ := copyPath_checked path member
  exact ⟨proper, plain, there, slot_directory holder⟩

/-- Project files as entries. -/
def fileEntries (files : List (Path × Source)) : List (Path × Node String) :=
  files.map fun file => (file.1, file.2.node)

theorem deposit_files {files : List (Path × Source)} {marked : List Path}
    (listed : ∀ file ∈ files, (file.1, some file.2) ∈ copies setting.env)
    (modes : ∀ path ∈ marked, (fileEntries files).lookup path = none →
      (path, none) ∈ copies setting.env) :
    Deposit setting (fileEntries files) (· ∈ marked) := by
  constructor
  · intro entry member
    obtain ⟨file, _, rfl⟩ := List.mem_map.mp member
    rfl
  · intro path mode found
    obtain ⟨file, _, same⟩ := List.mem_map.mp (mem_of_lookup found)
    obtain ⟨_, impossible⟩ := Prod.mk.inj same
    contradiction
  · intro path content mode found
    obtain ⟨⟨place, source⟩, inFiles, same⟩ := List.mem_map.mp (mem_of_lookup found)
    obtain ⟨rfl, sameNode⟩ := Prod.mk.inj same
    obtain ⟨rfl, rfl⟩ := Node.file.inj sameNode
    have member := listed _ inFiles
    exact ⟨slot_copy (copyPath_of_mem member), style_copy member⟩
  · intro path absent mark
    have member := modes path (of_decide_eq_true mark) absent
    exact ⟨.inr (.inl (slot_copy (copyPath_of_mem member))), style_copy member⟩

/-- Project files that are copied and then made executable where they are marked. -/
theorem settles_files {files : List (Path × Source)} {marked after : List Path}
    {script : Script Host} (distinct : (files.map Prod.fst).Nodup) (distinctMarks : marked.Nodup)
    (listed : ∀ file ∈ files, (file.1, some file.2) ∈ copies setting.env)
    (modes : ∀ path ∈ marked, (fileEntries files).lookup path = none →
      (path, none) ∈ copies setting.env)
    (markable : marked ⊆ copyPaths)
    (acts : Acts setting known script (copyEffects (fileEntries files) ++
      markEffects (· ||| setting.env.executeBits) marked) true after) :
    Settles setting (Reserved setting.env) known script true after := by
  have keys : (fileEntries files).map Prod.fst = files.map Prod.fst := by
    simp [fileEntries]
  refine (deposit_files listed modes).settles ?_ ?_ ?_ acts
  · rw [keys]
    exact distinct
  · intro path node
    rw [all_markEffects distinctMarks]
    simp
  · intro path reserved
    have notCopied : path ∉ copyPaths := by
      intro member
      exact (copyPath_checked path member).2.2.2.2.2.not_reserved reserved
    constructor
    · apply lookup_eq_none
      rw [keys]
      intro member
      obtain ⟨file, inFiles, rfl⟩ := List.mem_map.mp member
      exact notCopied (copyPath_of_mem (listed file inFiles))
    · rw [decide_eq_false_iff_not]
      exact fun member => notCopied (markable member)

theorem acts_copyFile (listed : path ∈ copyPaths) (there : path.dropLast ∈ known)
    (source : Source) (name : String) :
    Acts setting known (.run (copyFile setting.project source name path))
      (copyEffects (fileEntries [(path, source)])) true (path :: known) :=
  acts_run (does_copyFile (placed_copy listed there) (slot_copy listed) source name)

/-- A project file that is copied if it is there. -/
theorem settles_file {source : Option Source} {name : String}
    (member : (path, source) ∈ copies setting.env) (there : path.dropLast ∈ known) :
    Settles setting (Reserved setting.env) known
      (whenPresent source fun source =>
        .run (copyFile setting.project source name path)) true known := by
  cases source with
  | none => exact settles_skip
  | some source =>
      have acts : Acts setting known
          (.run (copyFile setting.project source name path))
          (copyEffects (fileEntries [(path, source)]) ++
            markEffects (· ||| setting.env.executeBits) []) true known :=
        (acts_copyFile (copyPath_of_mem member) there source name).mono (fun _ old => old)
          (by simp)
      exact settles_files (by simp) (by simp) (by simpa using member) (by simp) (by simp) acts

/-! ## Section 2: the stages -/

/-- The stages of the configuration that are there. -/
def stageCopies (config : RunitConfig) (names : List String) : List (Path × Source) :=
  names.filterMap fun name => (config.file name).map fun source => (["etc", "runit", name], source)

theorem stageCopies_sublist (config : RunitConfig) (names : List String) :
    ((stageCopies config names).map Prod.fst).Sublist
      (names.map fun name => ["etc", "runit", name]) := by
  induction names with
  | nil => exact .slnil
  | cons name names ih =>
      rw [stageCopies]
      cases found : config.file name with
      | none =>
          rw [List.filterMap_cons_none (by rw [found]; rfl)]
          exact .cons _ ih
      | some source =>
          rw [List.filterMap_cons_some (by rw [found]; rfl)]
          exact .cons_cons _ ih

theorem acts_copyStages {config : RunitConfig} {names : List String} (stages : names ⊆ stageFiles)
    (there : ["etc", "runit"] ∈ known) :
    Acts setting known (.block (names.map (copyStage setting.project config)))
      (copyEffects (fileEntries (stageCopies config names))) true known := by
  induction names generalizing known with
  | nil => exact acts_skip
  | cons name names ih =>
      have rest : names ⊆ stageFiles := fun other member => stages (by simp [member])
      rw [List.map_cons, Script.block_cons, copyStage, stageCopies]
      cases found : config.file name with
      | none =>
          rw [List.filterMap_cons_none (by rw [found]; rfl)]
          exact acts_seq acts_skip (ih rest there)
      | some source =>
          rw [List.filterMap_cons_some (by rw [found]; rfl)]
          have listed : ["etc", "runit"] ++ [name] ∈ copyPaths := by
            have checked : ∀ name ∈ stageFiles, ["etc", "runit"] ++ [name] ∈ copyPaths := by
              decide
            exact checked name (stages (by simp))
          have first : Acts setting known
              (.run (.ofOption (LinkTree.copyInto source.content source.mode name
                (setting.project.rootfs ["etc", "runit"]))))
              (copyEffects [(["etc", "runit"] ++ [name], source.node)]) true
              ((["etc", "runit"] ++ [name]) :: known) :=
            acts_run (does_copyInto (placed_copy listed there) (slot_copy listed) source)
          exact acts_seq first
            ((ih rest (by simp [there])).mono (fun _ old => old) (by simp))

/-- The stages that `chmod +x` makes executable. -/
def executableStages : List Path :=
  [["etc", "runit", "1"], ["etc", "runit", "2"], ["etc", "runit", "3"],
    ["etc", "runit", "ctrlaltdel"]]

theorem stage_mem_copies {config : RunitConfig} (configured : setting.env.runit = some config)
    {name : String} (stage : name ∈ stageFiles) :
    (["etc", "runit", name], config.file name) ∈ copies setting.env := by
  rw [copies, configured]
  apply List.mem_append_left
  exact List.mem_map.mpr ⟨name, stage, rfl⟩

theorem settles_stages {config : RunitConfig} (configured : setting.env.runit = some config)
    (there : ["etc", "runit"] ∈ known) :
    Settles setting (Reserved setting.env) known
      (.seq (.block (stageFiles.map (copyStage setting.project config)))
        (.tolerate (chmodExecutable setting.project setting.env executableStages)))
      true known := by
  have marked : ∀ path ∈ executableStages, path ∈ copyPaths ∧
      path.dropLast = ["etc", "runit"] ∧ ∃ name ∈ stageFiles, path = ["etc", "runit", name] := by
    decide +kernel
  have changes : Acts setting known
      (.tolerate (chmodExecutable setting.project setting.env executableStages))
      (markEffects (· ||| setting.env.executeBits) executableStages) true known := by
    have does : Does setting known
        (chmodExecutable setting.project setting.env executableStages) false
        (markEffects (· ||| setting.env.executeBits) executableStages) known := by
      apply does_chmodExecutable
      · intro path member
        obtain ⟨listed, parent, _⟩ := marked path member
        exact ⟨placed_copy listed (by rw [parent]; exact there), slot_copy listed⟩
      · simp
    exact acts_tolerate does
  refine settles_files ?_ (by decide) ?_ ?_ ?_
    (acts_seq (acts_copyStages (fun _ member => member) there) changes)
  · have distinct : (stageFiles.map fun name => ["etc", "runit", name]).Nodup := by decide
    exact distinct.sublist (stageCopies_sublist config stageFiles)
  · intro file member
    obtain ⟨name, stage, found⟩ := List.mem_filterMap.mp member
    obtain ⟨source, here, rfl⟩ := Option.map_eq_some_iff.mp found
    rw [← here]
    exact stage_mem_copies configured stage
  · intro path member absent
    obtain ⟨_, _, name, stage, rfl⟩ := marked path member
    cases found : config.file name with
    | none =>
        have here := stage_mem_copies configured stage
        rw [found] at here
        exact here
    | some source =>
        have copied : (["etc", "runit", name], source.node) ∈
            fileEntries (stageCopies config stageFiles) := by
          apply List.mem_map.mpr
          refine ⟨(["etc", "runit", name], source), ?_, rfl⟩
          exact List.mem_filterMap.mpr ⟨name, stage, by rw [found]; rfl⟩
        exact absurd absent (lookup_ne_none copied)
  · intro path member
    exact (marked path member).1

/-! ## Links -/

/-- The host has no directory where an absolute link of the script leads. -/
def HostFree (setting : Setting) : Prop :=
  ∀ entry ∈ links, ∀ target ∈ entry.2, target.absolute = true →
    NoHostDirectory setting.project setting.host target.names

section Links

variable {tree : Host} {targets : List Target} {target : Target}

theorem Fit.harmless (fit : Fit setting tree) (hostFree : HostFree setting)
    (listed : (path, targets) ∈ links) (linked : role path = .link targets) :
    Harmless setting.project setting.host tree path := by
  intro target there absolute
  have admits := fit.admits path
  rw [slot_link linked, there] at admits
  exact hostFree _ listed target ((admits _ rfl).2 target rfl) absolute

theorem Fit.not_holdsDirectory_link (fit : Fit setting tree) (linked : role path = .link targets) :
    tree.holdsDirectory (setting.project.rootfs path) = false := by
  rw [Bool.eq_false_iff]
  intro held
  obtain ⟨mode, there⟩ := LinkTree.holdsDirectory_iff.mp held
  have admits := fit.admits path
  rw [slot_link linked, there] at admits
  have impossible := (admits _ rfl).1
  contradiction

theorem tidy_link (linked : role path = .link targets) (member : target ∈ targets) :
    Tidy setting (Effect.single path (Change.replace (.link target))) := by
  apply tidy_replace
  rw [slot_link linked]
  rintro node ⟨⟩
  refine ⟨rfl, ?_⟩
  rintro other ⟨⟩
  exact member

/-- Onto a link that leads to no directory, `ln -sf` puts its own. -/
theorem does_link (hostFree : HostFree setting) (site : LinkSite path targets [])
    (listed : (path, targets) ∈ links) (member : target ∈ targets)
    (placed : Placed setting known path) :
    Does setting known (link setting.project target path) sure
      [Effect.single path (Change.replace (.link target))] known := by
  apply does_neat (tidy_link site.linked member).toNeat
  intro tree ready
  have fit := ready.fit
  have above := placed.above ready
  have notHeld := fit.not_holdsDirectory_link site.linked
  have notDirectory : tree.isDirectory (setting.project.rootfs path) = false := by
    rw [Bool.eq_false_iff]
    intro leads
    obtain ⟨place, resolved, directory⟩ := (Option.any_eq_true _ _).mp leads
    rcases site.landing fit.tame fit.outside (fit.harmless hostFree listed site.linked)
      resolved directory with rfl | ⟨inner, impossible, _⟩
    · rw [notHeld] at directory
      contradiction
    · cases impossible
  obtain ⟨next, set⟩ : ∃ next, tree.set (setting.project.rootfs path) (.link target) =
      some next := by
    apply LinkTree.exists_set (by simp [Project.rootfs]) above
    rw [notHeld]
    exact fun impossible => absurd impossible (by simp)
  refine ⟨next, ?_, acted_of_set set rfl⟩
  rw [LinkTree.symlink_here (plain_rootfs placed.plain) (by simp [Project.rootfs]) above target
    notDirectory]
  exact set

end Links

/-! ## Section 2: the services -/

theorem placed_enabled {name : String} (enabled : name ∈ ["getty-tty1", "getty-tty2", "iwd",
    "dhcpcd"]) (there : defaultDirectory ∈ known) :
    Placed setting known (enabledPath name) := by
  obtain ⟨proper, plain, _, _, _⟩ := linkSite_service enabled
  have holder : slot setting defaultDirectory = .directory := slot_directory (by decide)
  exact ⟨proper, plain, there, holder⟩

theorem settles_enable (hostFree : HostFree setting) {name : String}
    (enabled : name ∈ ["getty-tty1", "getty-tty2", "iwd", "dhcpcd"])
    (configured : setting.env.runit.isSome = true) (there : defaultDirectory ∈ known)
    {script : Script Host}
    (linking : script = .run (link setting.project (serviceTarget name) (enabledPath name)) ∨
      script = .tolerate (link setting.project (serviceTarget name) (enabledPath name))) :
    Settles setting (Reserved setting.env) known script true known := by
  have checked : ∀ name ∈ ["getty-tty1", "getty-tty2", "iwd", "dhcpcd"],
      (enabledPath name, [serviceTarget name]) ∈ links ∧
        enabledPath name ∉ [currentPath, loopPath] := by
    decide
  obtain ⟨listed, apart⟩ := checked name enabled
  have site := linkSite_service enabled
  have does : Does setting known (link setting.project (serviceTarget name) (enabledPath name))
      true [Effect.single (enabledPath name) (Change.replace (.link (serviceTarget name)))]
      known :=
    does_link hostFree site listed (by simp) (placed_enabled enabled there)
  have unreserved : ¬ Reserved setting.env (enabledPath name) := by
    rw [Reserved, if_pos configured]
    exact apart
  rcases linking with rfl | rfl
  · exact settles_single (tidy_link site.linked (by simp)) unreserved (acts_run does)
  · exact settles_single (tidy_link site.linked (by simp)) unreserved (acts_tolerate does)

/-- Whether a default service is there once the services have been copied. -/
def gettyThere (setting : Setting) (name : String) : Bool :=
  match setting.env.services.lookup [name] with
  | some (.directory _) => true
  | some (.file _ _) => false
  | _ => setting.getty name

theorem isDirectory_getty {tree : Host} {name : String}
    (enabled : name ∈ ["getty-tty1", "getty-tty2"]) (ready : Ready setting known tree)
    (there : ["etc", "sv"] ∈ known)
    (copied : setting.env.services.map (fun entry => servicePath entry.1) ⊆ known) :
    tree.isDirectory (setting.project.rootfs ["etc", "sv", name]) = gettyThere setting name := by
  have plainName : ∀ part ∈ ["etc", "sv", name], LinkTree.Plain part := by
    rcases List.mem_pair.mp enabled with rfl | rfl
    · decide
    · decide
  have holder : slot setting ["etc", "sv"] = .directory := slot_directory (by decide)
  have placed : Placed setting known (servicePath [name]) :=
    ⟨by simp [servicePath], plainName, there, holder⟩
  have slotted : slot setting (servicePath [name]) = serviceSlot setting [name] :=
    slot_servicePath (by simp)
  have unconfigured : slot setting (servicePath [name]) = .getty (setting.getty name) →
      tree.isDirectory (setting.project.rootfs (servicePath [name])) = setting.getty name := by
    intro getty
    obtain ⟨notLink, directory⟩ : (Slot.getty (setting.getty name)).Admits
        (tree.node (setting.project.rootfs (servicePath [name]))) := by
      rw [← getty]
      exact ready.fit.admits _
    have unlinked : tree.holdsLink (setting.project.rootfs (servicePath [name])) = false := by
      unfold LinkTree.holdsLink
      cases present : tree.node (setting.project.rootfs (servicePath [name])) with
      | none => rfl
      | some node => exact notLink node present
    rw [LinkTree.isDirectory, LinkTree.resolve_here (plain_rootfs placed.plain)
      (by simp [Project.rootfs]) (placed.above ready) unlinked, Option.any_some]
    exact directory
  have gettyPath : [name] ∈ [["getty-tty1"], ["getty-tty2"]] := by
    rcases List.mem_pair.mp enabled with rfl | rfl
    · simp
    · simp
  unfold gettyThere
  rcases found : setting.env.services.lookup [name] with _ | (mode | ⟨content, mode⟩ | target)
  · apply unconfigured
    rw [slotted, serviceSlot, found]
    exact if_pos gettyPath
  · have member : servicePath [name] ∈ known :=
      copied (List.mem_map.mpr ⟨_, mem_of_lookup found, rfl⟩)
    have directory : slot setting (servicePath [name]) = .directory := by
      rw [slotted, serviceSlot_directory found]
    exact LinkTree.isDirectory_of_holdsDirectory (plain_rootfs plainName)
      (ready.holdsDirectory member directory)
  · have file : slot setting (servicePath [name]) = .file := by
      rw [slotted, serviceSlot_file found]
    exact FilePath.isDirectory ⟨placed, .inl file⟩ ready
  · apply unconfigured
    rw [slotted, serviceSlot, found]
    exact if_pos gettyPath

theorem settles_enableGetty (hostFree : HostFree setting) {name : String}
    (enabled : name ∈ ["getty-tty1", "getty-tty2"])
    (configured : setting.env.runit.isSome = true) (there : ["etc", "sv"] ∈ known)
    (default : defaultDirectory ∈ known)
    (copied : setting.env.services.map (fun entry => servicePath entry.1) ⊆ known) :
    Settles setting (Reserved setting.env) known (enableGetty setting.project name) true known := by
  apply settles_when_sure fun tree ready => isDirectory_getty enabled ready there copied
  intro _
  apply settles_enable hostFree _ configured default (.inl rfl)
  rcases List.mem_pair.mp enabled with rfl | rfl
  · simp
  · simp

theorem reserved_not_service {env : Environment} (reserved : Reserved env path) :
    ∀ rest, path ≠ servicePath rest := by
  rintro rest rfl
  exact (remote_servicePath rest).not_reserved reserved

/-- Sections that copy services and make their scripts executable. -/
theorem settles_services (orderly : Orderly setting.env) (hostFree : HostFree setting)
    (configured : setting.env.runit.isSome = true) (base : baseDirectories ⊆ known) :
    Settles setting (Reserved setting.env) known
      (copyServices setting.project setting.env setting.env.services) true known := by
  have etc : ["etc"] ∈ known := base (by decide)
  have sv : ["etc", "sv"] ∈ known := base (by decide)
  have default : defaultDirectory ∈ known := base (by decide)
  let after := setting.env.services.map (fun entry => servicePath entry.1) ++ known
  have copying : Settles setting (Reserved setting.env) known
      (.seq (.tolerate (LinkTree.copyTree setting.env.services
          (setting.project.rootfs ["etc", "sv"])))
        (.tolerate (.ofOption (LinkTree.chmodFound "run" (· ||| setting.env.executeBits)
          (setting.project.rootfs ["etc", "sv"]))))) true after := by
    have copies : Does setting known (LinkTree.copyTree setting.env.services
        (setting.project.rootfs ["etc", "sv"])) false
        (copyEffects (serviceEntries setting.env.services)) after :=
      does_copyTree orderly orderly.listed sv
    have finds : Does setting after (.ofOption (LinkTree.chmodFound "run"
        (· ||| setting.env.executeBits) (setting.project.rootfs ["etc", "sv"]))) false
        [findEffect (· ||| setting.env.executeBits)] after :=
      does_chmodFound _ (List.mem_append_right _ etc)
    refine (deposit_services orderly).settles (distinct_serviceEntries orderly.distinct) ?_ ?_
      (acts_seq (acts_tolerate copies) (acts_tolerate finds))
    · intro path node
      rw [Effect.all_cons, Effect.all_nil, findEffect]
      split <;> rfl
    · intro path reserved
      refine ⟨lookup_serviceEntries_none (reserved_not_service reserved), ?_⟩
      rw [Bool.eq_false_iff]
      intro run
      obtain ⟨rest, here, _⟩ := exists_of_isRun run
      exact reserved_not_service reserved rest here
  have getty : ∀ name ∈ ["getty-tty1", "getty-tty2"],
      Settles setting (Reserved setting.env) after (enableGetty setting.project name) true
        after := by
    intro name enabled
    exact settles_enableGetty hostFree enabled configured (List.mem_append_right _ sv)
      (List.mem_append_right _ default) (List.subset_append_left _ _)
  apply settles_pair copying
  apply settles_then (getty "getty-tty1" (by simp))
  apply settles_then (getty "getty-tty2" (by simp))
  exact settles_skip.mono (fun _ member => member) (List.subset_append_right _ _)

/-- Section 2 for a `configs/runit` that is a directory, up to its last link. -/
def configureFiles (project : Project) (env : Environment) (config : RunitConfig) : Script Host :=
  .seq (.block (stageFiles.map (copyStage project config)))
    (.seq (.tolerate (chmodExecutable project env executableStages))
      (.seq (whenPresent (config.file "hostname") fun source =>
          .run (copyFile project source "hostname" ["etc", "hostname"]))
        (match config.services with
          | some services => copyServices project env services
          | none => .skip)))

theorem settles_configureFiles (orderly : Orderly setting.env) (hostFree : HostFree setting)
    {config : RunitConfig} (configured : setting.env.runit = some config)
    (base : baseDirectories ⊆ known) :
    Settles setting (Reserved setting.env) known
      (configureFiles setting.project setting.env config) true known := by
  have hostname : (["etc", "hostname"], config.file "hostname") ∈ copies setting.env := by
    rw [copies, configured]
    simp
  apply settles_pair (settles_stages configured (base (by decide)))
  apply settles_then (settles_file hostname (base (by decide)))
  cases found : config.services with
  | none => exact settles_skip
  | some services =>
      have same : setting.env.services = services := by
        rw [Environment.services, configured, Option.bind_some, found]
        rfl
      have settles := settles_services orderly hostFree (by rw [configured]; rfl) base
      rwa [same] at settles

/-! ## Sections 3 and 4 -/

theorem settles_remoteLink (hostFree : HostFree setting) {targets : List Target} {target : Target}
    (site : LinkSite path targets []) (listed : (path, targets) ∈ links)
    (member : target ∈ targets) (holder : role path.dropLast = .directory)
    (there : path.dropLast ∈ known) (remote : Remote path) :
    Settles setting (Reserved setting.env) known
      (.tolerate (link setting.project target path)) true known := by
  have placed : Placed setting known path :=
    ⟨site.proper, site.plain, there, slot_directory holder⟩
  have does : Does setting known (link setting.project target path) false
      [Effect.single path (Change.replace (.link target))] known :=
    does_link hostFree site listed member placed
  exact settles_single (tidy_link site.linked member) remote.not_reserved (acts_tolerate does)

theorem settles_linkInit (hostFree : HostFree setting) (there : ["sbin"] ∈ known) :
    Settles setting (Reserved setting.env) known (linkInit setting.project) true known := by
  apply settles_then (settles_remoteLink hostFree linkSite_init (by decide) (by decide)
    (by decide) there (by decide))
  apply settles_then (settles_remoteLink hostFree linkSite_stage1 (by decide) (by decide)
    (by decide) there (by decide))
  exact settles_skip

/-- The minimal `fstab` is made where there is none. -/
theorem settles_writeFstab (there : ["etc"] ∈ known) :
    Settles setting (Reserved setting.env) known (writeFstab setting.project setting.env) true
      known := by
  have file : slot setting ["etc", "fstab"] = .file := slot_file (by decide)
  have styled : style setting.env ["etc", "fstab"] = .made := rfl
  have filePath : FilePath setting known ["etc", "fstab"] :=
    ⟨⟨by simp, by decide, there, slot_directory (by decide)⟩, .inl file⟩
  have tidy : Tidy setting (Effect.single ["etc", "fstab"]
      (Change.create (.file fstabText setting.env.fileMode))) := by
    apply Neat.tidy_single
    · apply neat_single
      · rw [file]
        intro node possible
        cases node with
        | none =>
            rintro present ⟨⟩
            exact ⟨rfl, rfl⟩
        | some old => exact possible
      · exact Change.keeps_create _
    · rw [styled]
      exact .inr (.inr ⟨_, fun _ _ => rfl⟩)
  have remote : Remote ["etc", "fstab"] := by decide
  apply settles_single tidy remote.not_reserved
  intro tree ready
  have plain : ∀ name ∈ setting.project.rootfs ["etc", "fstab"], LinkTree.Plain name :=
    plain_rootfs filePath.plain
  have proper : setting.project.rootfs ["etc", "fstab"] ≠ [] := by simp [Project.rootfs]
  have above := filePath.above ready
  have isFile := LinkTree.isFile_here plain proper above (filePath.holdsLink ready)
  rw [writeFstab, exec_when, isFile]
  rcases ready.fit.file_cases (.inl file) with missing | ⟨content, mode, there⟩
  · obtain ⟨next, set⟩ := filePath.exists_set ready fstabText setting.env.fileMode
    have written : LinkTree.writeFile fstabText setting.env.fileMode
        (setting.project.rootfs ["etc", "fstab"]) tree = some next := by
      rw [LinkTree.writeFile_missing plain proper above _ _ missing]
      exact set
    have acted : Acted setting.project (Effect.all [Effect.single ["etc", "fstab"]
        (Change.create (.file fstabText setting.env.fileMode))]) tree next := by
      apply acted_of_set set
      rw [missing]
      rfl
    rw [missing]
    simp only [Bool.not_false, if_true, exec, Command.ofOption, written]
    exact ⟨rfl, acted, fun _ => ready.acted tidy.toNeat acted⟩
  · rw [there]
    simp only [Bool.not_true, Bool.false_eq_true, if_false]
    refine ⟨rfl, acted_of_fixed ?_, fun _ => ready⟩
    rw [there]
    rfl

end Sections

end AqjOs.Rootfs
