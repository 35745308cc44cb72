import AqjOs.Rootfs.Deposits

/-!
# The service directories

`cp -r` copies the services in the order of its listing, in which a directory
comes before what it contains, and `find` makes every file called `run`
executable.
-/

namespace AqjOs.Rootfs

open AqjOs.Files AqjOs.Shell AqjOs.Shell.Script

/-- A path below `/etc/sv`. -/
def servicePath (path : Path) : Path :=
  "etc" :: "sv" :: path

/-- Services by their paths below the rootfs. -/
def serviceEntries (entries : List (Path × Node String)) : List (Path × Node String) :=
  entries.map fun entry => (servicePath entry.1, entry.2)

/-- Every entry lies in one of the directories, or in one that comes before it. -/
def ParentsFirst : List Path → List (Path × Node String) → Prop
  | _, [] => True
  | dirs, entry :: rest => entry.1.dropLast ∈ dirs ∧
      ParentsFirst (if entry.2.isDirectory then entry.1 :: dirs else dirs) rest

instance ParentsFirst.decidable : (dirs : List Path) → (entries : List (Path × Node String)) →
    Decidable (ParentsFirst dirs entries)
  | _, [] => isTrue trivial
  | dirs, entry :: rest =>
      have := ParentsFirst.decidable (if entry.2.isDirectory then entry.1 :: dirs else dirs) rest
      inferInstanceAs (Decidable (_ ∧ _))

/-- The services of the configuration as `cp -r` can meet them: no links, every
path once, directories before their contents, and no directory where the script
of a network daemon is made executable. -/
structure Orderly (env : Environment) : Prop where
  linkless : Linkless env.services
  distinct : (env.services.map Prod.fst).Nodup
  parentsFirst : ParentsFirst [[]] env.services
  runs : ∀ name ∈ ["iwd", "dhcpcd"], ∀ mode,
    env.services.lookup [name, "run"] ≠ some (.directory mode)

/-! ## Listings -/

section Listings

variable {entries : List (Path × Node String)} {path : Path}

theorem lookup_serviceEntries (entries : List (Path × Node String)) (path : Path) :
    (serviceEntries entries).lookup (servicePath path) = entries.lookup path := by
  induction entries with
  | nil => rfl
  | cons entry entries ih =>
      have same : (servicePath path == servicePath entry.1) = (path == entry.1) := by
        simp [servicePath]
      rw [serviceEntries, List.map_cons, List.lookup_cons, List.lookup_cons, same]
      cases path == entry.1 with
      | true => rfl
      | false => exact ih

theorem lookup_serviceEntries_none {entries : List (Path × Node String)}
    (other : ∀ rest, path ≠ servicePath rest) : (serviceEntries entries).lookup path = none := by
  apply lookup_eq_none
  intro member
  obtain ⟨entry, inEntries, rfl⟩ := List.mem_map.mp member
  obtain ⟨service, _, rfl⟩ := List.mem_map.mp inEntries
  exact other service.1 rfl

theorem distinct_serviceEntries (distinct : (entries.map Prod.fst).Nodup) :
    ((serviceEntries entries).map Prod.fst).Nodup := by
  have same : (serviceEntries entries).map Prod.fst = (entries.map Prod.fst).map servicePath := by
    simp [serviceEntries]
  rw [same]
  apply distinct.map
  intro first second equal
  simpa [servicePath] using equal

/-- The entries of one service are listed in a proper order, too. -/
theorem ParentsFirst.filter {name : String} {dirs fewer : List Path}
    (parentsFirst : ParentsFirst dirs entries)
    (proper : ∀ entry ∈ entries, entry.1 ≠ [])
    (kept : ∀ path ∈ dirs, path = [] ∨ path.head? = some name → path ∈ fewer) :
    ParentsFirst fewer (entries.filter fun entry => entry.1.head? == some name) := by
  induction entries generalizing dirs fewer with
  | nil => trivial
  | cons entry entries ih =>
      obtain ⟨inDirs, rest⟩ := parentsFirst
      have properRest : ∀ entry ∈ entries, entry.1 ≠ [] :=
        fun other member => proper other (by simp [member])
      by_cases ours : entry.1.head? = some name
      · rw [List.filter_cons_of_pos (by simpa using ours)]
        constructor
        · apply kept _ inDirs
          cases above : entry.1.dropLast with
          | nil => exact .inl rfl
          | cons first others =>
              right
              have under := List.dropLast_prefix entry.1
              rw [above] at under
              obtain ⟨tail, whole⟩ := under
              rw [← whole] at ours
              exact ours
        · apply ih rest properRest
          intro path member which
          split at member
          · rcases List.mem_cons.mp member with rfl | old
            · simp_all
            · simp_all
          · simp_all
      · rw [List.filter_cons_of_neg (by simpa using ours)]
        apply ih rest properRest
        intro path member which
        split at member
        · rcases List.mem_cons.mp member with rfl | old
          · rcases which with empty | head
            · exact absurd empty (proper entry (by simp))
            · exact absurd head ours
          · exact kept path old which
        · exact kept path member which

end Listings

theorem proper_services (env : Environment) :
    ∀ entry ∈ env.services, entry.1 ≠ [] ∧ ∀ name ∈ entry.1, LinkTree.Plain name := by
  intro entry member
  unfold Environment.services at member
  cases found : env.runit with
  | none =>
      rw [found] at member
      cases member
  | some config =>
      rw [found] at member
      exact config.proper entry member

/-- Some of the services, as they are listed. -/
structure Listed (env : Environment) (entries : List (Path × Node String)) : Prop where
  subset : entries ⊆ env.services
  distinct : (entries.map Prod.fst).Nodup
  parentsFirst : ParentsFirst [[]] entries

theorem Orderly.listed {env : Environment} (orderly : Orderly env) : Listed env env.services :=
  ⟨fun _ member => member, orderly.distinct, orderly.parentsFirst⟩

theorem Orderly.listed_service {env : Environment} {config : RunitConfig}
    (orderly : Orderly env) (found : env.runit = some config) (name : String) :
    Listed env (config.service name) := by
  have same : env.services = config.services.getD [] := by
    rw [Environment.services, found]
    rfl
  refine ⟨?_, ?_, ?_⟩
  · intro entry member
    rw [same]
    exact List.mem_of_mem_filter member
  · rw [RunitConfig.service, ← same]
    exact orderly.distinct.sublist (List.filter_sublist.map _)
  · rw [RunitConfig.service, ← same]
    apply orderly.parentsFirst.filter fun entry member => (proper_services env entry member).1
    simp

section Copying

variable {setting : Setting} {known : List Path} {sure : Bool} {path : Path}

theorem slot_servicePath (proper : path ≠ []) :
    slot setting (servicePath path) = serviceSlot setting path := by
  obtain ⟨name, rest, rfl⟩ := List.exists_cons_of_ne_nil proper
  exact slot_service name rest

theorem style_servicePath {env : Environment} (proper : path ≠ []) :
    style env (servicePath path) =
      match env.services.lookup path with
      | some (.file content _) => .text content (· ||| env.executeBits)
      | some (.directory _) => .made
      | _ => .mode (· ||| env.executeBits) := by
  obtain ⟨name, rest, rfl⟩ := List.exists_cons_of_ne_nil proper
  have service : role (servicePath (name :: rest)) = .service := role_service name rest
  rw [style, service]
  rfl

theorem serviceSlot_directory {mode : Nat}
    (found : setting.env.services.lookup path = some (.directory mode)) :
    serviceSlot setting path = .directory := by
  rw [serviceSlot, found]

theorem serviceSlot_file {content : String} {mode : Nat}
    (found : setting.env.services.lookup path = some (.file content mode)) :
    serviceSlot setting path = .file := by
  rw [serviceSlot, found]

theorem plain_servicePath (plain : ∀ name ∈ path, LinkTree.Plain name) :
    ∀ name ∈ servicePath path, LinkTree.Plain name :=
  (direct_service plain).1

theorem servicePath_dropLast (proper : path ≠ []) :
    (servicePath path).dropLast = servicePath path.dropLast := by
  obtain ⟨above, name, rfl⟩ := List.eq_nil_or_concat' path |>.resolve_left proper
  rw [List.dropLast_concat, servicePath, ← List.cons_append, ← List.cons_append,
    List.dropLast_concat]
  rfl

/-- One entry of `cp -r`. -/
theorem does_copyEntry {node : Node String}
    (found : setting.env.services.lookup path = some node) (notLink : node.isLink = false)
    (placed : Placed setting known (servicePath path)) :
    Does setting known
      (.ofOption (LinkTree.copyEntry (setting.project.rootfs ["etc", "sv"]) (path, node))) sure
      (copyEffects [(servicePath path, node)]) (servicePath path :: known) := by
  have proper : path ≠ [] := (proper_services setting.env _ (mem_of_lookup found)).1
  have here : setting.project.rootfs ["etc", "sv"] ++ path =
      setting.project.rootfs (servicePath path) := rootfs_append _ _
  cases node with
  | link target => contradiction
  | file content mode =>
      have file : slot setting (servicePath path) = .file := by
        rw [slot_servicePath proper, serviceSlot_file found]
      apply does_overwrite placed file ⟨content, mode⟩
      intro tree ready
      have above := placed.above ready
      simp only [LinkTree.copyEntry, here, if_pos above]
  | directory mode =>
      have directory : slot setting (servicePath path) = .directory := by
        rw [slot_servicePath proper, serviceSlot_directory found]
      apply does_ofOption
      intro tree ready
      have above := placed.above ready
      have neat : Neat setting (Effect.single (servicePath path)
          (Change.create (.directory mode))) := neat_create directory
      rcases ready.fit.directory_cases directory with missing | held
      · obtain ⟨next, set⟩ : ∃ next, tree.set (setting.project.rootfs (servicePath path))
            (.directory mode) = some next :=
          LinkTree.exists_set (by simp [Project.rootfs]) above (fun _ => rfl)
        have acted : Acted setting.project
            (Effect.all (copyEffects [(servicePath path, .directory mode)])) tree next := by
          apply acted_of_set set
          rw [missing]
          rfl
        refine ⟨next, ?_, acted, (ready.acted neat acted).cons ?_⟩
        · simp only [LinkTree.copyEntry, here, if_pos above, missing]
          exact set
        · rw [LinkTree.node_set set, if_pos rfl]
          exact Option.some_ne_none _
      · obtain ⟨kept, there⟩ := LinkTree.holdsDirectory_iff.mp held
        have acted : Acted setting.project
            (Effect.all (copyEffects [(servicePath path, .directory mode)])) tree tree := by
          apply acted_of_fixed
          rw [there]
          rfl
        refine ⟨tree, ?_, acted, ready.cons ?_⟩
        · simp only [LinkTree.copyEntry, here, if_pos above, there]
        · rw [there]
          exact Option.some_ne_none _

/-- Entries whose directories are there or are listed before them. -/
theorem does_copyEntries {entries : List (Path × Node String)} {dirs : List Path}
    (linkless : Linkless setting.env.services)
    (found : ∀ entry ∈ entries, setting.env.services.lookup entry.1 = some entry.2)
    (parentsFirst : ParentsFirst dirs entries)
    (there : ∀ path ∈ dirs, servicePath path ∈ known ∧
      slot setting (servicePath path) = .directory) :
    Does setting known (.each (entries.map fun entry =>
        .ofOption (LinkTree.copyEntry (setting.project.rootfs ["etc", "sv"]) entry))) sure
      (copyEffects (serviceEntries entries))
      (entries.map (fun entry => servicePath entry.1) ++ known) := by
  induction entries generalizing dirs known with
  | nil => exact does_each_nil
  | cons entry entries ih =>
      obtain ⟨path, node⟩ := entry
      obtain ⟨inDirs, rest⟩ := parentsFirst
      have here := found (path, node) (by simp)
      have listed := mem_of_lookup here
      obtain ⟨proper, plain⟩ := proper_services setting.env _ listed
      have placed : Placed setting known (servicePath path) := by
        refine ⟨by simp [servicePath], plain_servicePath plain, ?_, ?_⟩
        · rw [servicePath_dropLast proper]
          exact (there _ inDirs).1
        · rw [servicePath_dropLast proper]
          exact (there _ inDirs).2
      have first : Does setting known
          (.ofOption (LinkTree.copyEntry (setting.project.rootfs ["etc", "sv"]) (path, node)))
          sure (copyEffects [(servicePath path, node)]) (servicePath path :: known) :=
        does_copyEntry here (linkless _ listed) placed
      have thereNext : ∀ other ∈ (if node.isDirectory then path :: dirs else dirs),
          servicePath other ∈ servicePath path :: known ∧
            slot setting (servicePath other) = .directory := by
        intro other member
        split at member
        · rename_i isDirectory
          rcases List.mem_cons.mp member with rfl | old
          · refine ⟨by simp, ?_⟩
            rw [slot_servicePath proper]
            cases node with
            | directory mode => exact serviceSlot_directory here
            | file content mode => contradiction
            | link target => contradiction
          · exact ⟨by simp [(there other old).1], (there other old).2⟩
        · exact ⟨by simp [(there other member).1], (there other member).2⟩
      have others := ih (fun other member => found other (by simp [member])) rest thereNext
      apply (does_each_cons first others).mono (fun _ old => old)
      intro other member
      simp only [List.map_cons, List.mem_append, List.mem_cons] at member ⊢
      tauto

theorem does_copyTree {entries : List (Path × Node String)} (orderly : Orderly setting.env)
    (listed : Listed setting.env entries) (there : ["etc", "sv"] ∈ known) :
    Does setting known (LinkTree.copyTree entries (setting.project.rootfs ["etc", "sv"])) sure
      (copyEffects (serviceEntries entries))
      (entries.map (fun entry => servicePath entry.1) ++ known) := by
  have directory : slot setting ["etc", "sv"] = .directory := slot_directory (by decide)
  have copies : Does setting known (.each (entries.map fun entry =>
      .ofOption (LinkTree.copyEntry (setting.project.rootfs ["etc", "sv"]) entry))) sure
      (copyEffects (serviceEntries entries))
      (entries.map (fun entry => servicePath entry.1) ++ known) := by
    apply does_copyEntries orderly.linkless _ listed.parentsFirst
    · intro path member
      obtain rfl := List.mem_singleton.mp member
      exact ⟨there, directory⟩
    · intro entry member
      exact lookup_of_mem orderly.distinct (listed.subset member)
  intro tree ready
  have held := ready.holdsDirectory there directory
  have base : (tree.resolve (setting.project.rootfs ["etc", "sv"])).filter tree.holdsDirectory =
      some (setting.project.rootfs ["etc", "sv"]) := by
    rw [LinkTree.resolve_of_holdsDirectory (plain_rootfs (by decide)) held]
    simp [held]
  simp only [LinkTree.copyTree, base]
  exact copies tree ready

end Copying

/-! ## The scripts called `run` -/

/-- The files that `find` makes executable. -/
def isRun (path : Path) : Bool :=
  ["etc", "sv"].isPrefixOf path && path.getLast? == some "run"

theorem exists_of_isRun {path : Path} (run : isRun path = true) :
    ∃ rest, path = servicePath rest ∧ rest ≠ [] ∧ rest.getLast? = some "run" := by
  simp only [isRun, Bool.and_eq_true, List.isPrefixOf_iff_prefix, beq_iff_eq] at run
  obtain ⟨⟨rest, rfl⟩, last⟩ := run
  refine ⟨rest, rfl, ?_, ?_⟩
  · rintro rfl
    contradiction
  · cases rest with
    | nil => contradiction
    | cons name rest => simpa [List.getLast?_cons_cons] using last

/-- `find` sees the same with the rootfs in front. -/
theorem isRun_rootfs (project : Project) (path : Path) :
    ((project.rootfs ["etc", "sv"]).isPrefixOf (project.rootfs path) &&
      (project.rootfs path).getLast? == some "run") = isRun path := by
  have below : project.rootfs ["etc", "sv"] <+: project.rootfs path ↔ ["etc", "sv"] <+: path := by
    rw [Project.rootfs, Project.rootfs, List.prefix_append_right_inj, List.cons_prefix_cons]
    simp
  rw [isRun, Bool.eq_iff_iff]
  simp only [Bool.and_eq_true, List.isPrefixOf_iff_prefix, beq_iff_eq, below]
  apply and_congr_right
  rintro ⟨rest, rfl⟩
  rw [Project.rootfs, List.getLast?_append]
  simp

section Modes

variable {setting : Setting} {known : List Path} {sure : Bool}

theorem serviceSlot_executable {path : Path} (last : path.getLast? = some "run") :
    (serviceSlot setting path).Executable := by
  unfold serviceSlot
  split
  · exact .inl rfl
  · exact .inr (.inl rfl)
  · split
    · rename_i getty
      rcases List.mem_pair.mp getty with rfl | rfl
      · contradiction
      · contradiction
    · split
      · exact .inr (.inl rfl)
      · exact .inr (.inr rfl)

theorem slot_isRun {path : Path} (run : isRun path = true) : (slot setting path).Executable := by
  obtain ⟨rest, rfl, proper, last⟩ := exists_of_isRun run
  rw [slot_servicePath proper]
  exact serviceSlot_executable last

/-- The effect of `find`. -/
def findEffect (bits : Nat → Nat) : Effect :=
  fun path => if isRun path then Change.chmod bits else id

theorem neat_findEffect (bits : Nat → Nat) : Neat setting (findEffect bits) := by
  constructor
  · intro path node possible
    unfold findEffect
    split
    · rename_i run
      exact Slot.admits_chmod (slot_isRun run) possible bits
    · exact possible
  · intro path
    unfold findEffect
    split
    · exact Change.keeps_chmod bits
    · exact Change.keeps_id

theorem does_chmodFound (bits : Nat → Nat) (there : ["etc"] ∈ known) :
    Does setting known
      (.ofOption (LinkTree.chmodFound "run" bits (setting.project.rootfs ["etc", "sv"]))) sure
      [findEffect bits] known := by
  apply does_neat (neat_findEffect bits)
  intro tree ready
  have placed : Placed setting known ["etc", "sv"] :=
    ⟨by simp, by decide, there, slot_directory (by decide)⟩
  have located : tree.locate (setting.project.rootfs ["etc", "sv"]) =
      some (setting.project.rootfs ["etc", "sv"]) :=
    LinkTree.locate_here (plain_rootfs placed.plain) (by simp [Project.rootfs])
      (placed.above ready)
  refine ⟨_, by rw [LinkTree.chmodFound, located]; rfl, ?_, ?_⟩
  · intro path
    simp only [LinkTree.mapFiles, isRun_rootfs, Effect.all_cons, Effect.all_nil, findEffect]
    cases isRun path with
    | false => rfl
    | true =>
        rcases tree.node (setting.project.rootfs path) with _ | (kept | ⟨old, kept⟩ | target)
          <;> rfl
  · intro place outside
    have unselected : (setting.project.rootfs ["etc", "sv"]).isPrefixOf place = false := by
      rw [Bool.eq_false_iff]
      intro below
      obtain ⟨rest, whole⟩ := List.isPrefixOf_iff_prefix.mp below
      rw [rootfs_append] at whole
      exact outside _ whole.symm
    simp only [LinkTree.mapFiles, unselected, Bool.false_and]
    rfl

theorem serviceEntry_of_lookup {entries : List (Path × Node String)} {path : Path}
    {node : Node String} (found : (serviceEntries entries).lookup path = some node) :
    ∃ rest, path = servicePath rest ∧ entries.lookup rest = some node := by
  obtain ⟨⟨rest, here⟩, _, same⟩ := List.mem_map.mp (mem_of_lookup found)
  obtain ⟨rfl, rfl⟩ := Prod.mk.inj same
  rw [lookup_serviceEntries] at found
  exact ⟨rest, rfl, found⟩

/-- A part of the services may be copied to its place. -/
theorem Listed.deposit {entries : List (Path × Node String)} {marked : Path → Bool}
    (listed : Listed setting.env entries) (orderly : Orderly setting.env)
    (modes : ∀ path, (serviceEntries entries).lookup path = none → marked path = true →
      (slot setting path).Executable ∧
        style setting.env path = .mode (· ||| setting.env.executeBits)) :
    Deposit setting (serviceEntries entries) marked := by
  have configured : ∀ path node, (serviceEntries entries).lookup path = some node →
      ∃ rest, path = servicePath rest ∧ rest ≠ [] ∧
        setting.env.services.lookup rest = some node := by
    intro path node found
    obtain ⟨rest, rfl, inEntries⟩ := serviceEntry_of_lookup found
    have member := listed.subset (mem_of_lookup inEntries)
    exact ⟨rest, rfl, (proper_services setting.env _ member).1,
      lookup_of_mem orderly.distinct member⟩
  constructor
  · intro entry member
    obtain ⟨service, inEntries, rfl⟩ := List.mem_map.mp member
    exact orderly.linkless service (listed.subset inEntries)
  · intro path mode found
    obtain ⟨rest, rfl, proper, here⟩ := configured path _ found
    rw [slot_servicePath proper, serviceSlot_directory here, style_servicePath proper, here]
    exact ⟨rfl, rfl⟩
  · intro path content mode found
    obtain ⟨rest, rfl, proper, here⟩ := configured path _ found
    rw [slot_servicePath proper, serviceSlot_file here, style_servicePath proper, here]
    exact ⟨rfl, rfl⟩
  · exact modes

theorem deposit_services (orderly : Orderly setting.env) :
    Deposit setting (serviceEntries setting.env.services) isRun := by
  apply orderly.listed.deposit orderly
  intro path absent run
  refine ⟨slot_isRun run, ?_⟩
  obtain ⟨rest, rfl, proper, _⟩ := exists_of_isRun run
  rw [lookup_serviceEntries] at absent
  rw [style_servicePath proper, absent]

/-- Where the script of a network daemon goes there is a file or nothing. -/
theorem slot_run (orderly : Orderly setting.env) {name : String}
    (daemon : name ∈ ["iwd", "dhcpcd"]) :
    slot setting (servicePath [name, "run"]) = .file := by
  have runPath : [name, "run"] ∉ [["getty-tty1"], ["getty-tty2"]] ∧
      [name, "run"] ∈ [["iwd", "run"], ["dhcpcd", "run"]] := by
    rcases List.mem_pair.mp daemon with rfl | rfl
    · decide
    · decide
  rw [slot_servicePath (by simp), serviceSlot]
  rcases found : setting.env.services.lookup [name, "run"] with
    _ | (mode | ⟨content, mode⟩ | target)
  · simp only [if_neg runPath.1, if_pos runPath.2]
  · exact absurd found (orderly.runs name daemon mode)
  · rfl
  · simp only [if_neg runPath.1, if_pos runPath.2]

theorem lookup_service (orderly : Orderly setting.env) {config : RunitConfig}
    (found : setting.env.runit = some config) (name : String) (rest : Path) :
    (config.service name).lookup (name :: rest) = setting.env.services.lookup (name :: rest) := by
  have listed := orderly.listed_service found name
  have same : setting.env.services = config.services.getD [] := by
    rw [Environment.services, found]
    rfl
  cases configured : setting.env.services.lookup (name :: rest) with
  | some node =>
      apply lookup_of_mem listed.distinct
      rw [RunitConfig.service, ← same]
      exact List.mem_filter.mpr ⟨mem_of_lookup configured, by simp⟩
  | none =>
      cases inService : (config.service name).lookup (name :: rest) with
      | none => rfl
      | some node =>
          have member := listed.subset (mem_of_lookup inService)
          rw [lookup_of_mem orderly.distinct member] at configured
          contradiction

theorem deposit_service (orderly : Orderly setting.env) {config : RunitConfig}
    (found : setting.env.runit = some config) {name : String}
    (daemon : name ∈ ["iwd", "dhcpcd"]) :
    Deposit setting (serviceEntries (config.service name))
      (· ∈ [servicePath [name, "run"]]) := by
  apply (orderly.listed_service found name).deposit orderly
  intro path absent marked
  obtain rfl := List.mem_singleton.mp (of_decide_eq_true marked)
  rw [lookup_serviceEntries, lookup_service orderly found] at absent
  refine ⟨.inr (.inl (slot_run orderly daemon)), ?_⟩
  rw [style_servicePath (by simp), absent]

end Modes

end AqjOs.Rootfs
