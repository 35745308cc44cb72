import AqjOs.Installer.Script
import AqjOs.Shell.Triple

/-!
# The block devices that the installer touches

Every device name that `installer.sh` hands to `sfdisk`, `mkfs.ext4`, `mount`
or `limine` is the target disk or the name computed for its first partition.
The computed name follows no naming rule of the kernel, so that it can be the
node of another device.
-/

namespace AqjOs.Installer

open AqjOs.Shell

/-- Every block device handed out is the disk itself or one of its partitions. -/
def Confined (disk : String) (machine : Machine) : Prop :=
  ∀ handover ∈ machine.handed, ∀ node, handover.node = some node →
    handover.device = disk ∨ ∃ number, node = .partition disk number

/-- No node that the installer can compute for the first partition of `disk`
belongs to another device. -/
def NoForeignRoot (devices : DeviceTable) (disk : String) : Prop :=
  devices.OwnOrAbsent disk (disk ++ "1") ∧
    (namesNvme disk = true → devices.OwnOrAbsent disk (disk ++ "p1"))

theorem noForeignRoot_iff (devices : DeviceTable) (disk : String) :
    NoForeignRoot devices disk ↔
      ∀ grepWorks, devices.OwnOrAbsent disk (rootPartition grepWorks disk) := by
  constructor
  · rintro ⟨plain, nvme⟩ grepWorks
    unfold rootPartition
    split
    · rename_i named
      exact nvme (Bool.and_eq_true_iff.mp named).2
    · exact plain
  · intro every
    constructor
    · simpa [rootPartition] using every false
    · intro named
      simpa [rootPartition, named] using every true

@[simp]
theorem noForeignRoot_repartition (devices : DeviceTable) (disk : String) (numbers : List Nat) :
    NoForeignRoot (devices.repartition disk numbers) disk ↔ NoForeignRoot devices disk := by
  simp [NoForeignRoot]

/-- Handing out the disk or a name that is no foreign node keeps confinement. -/
theorem Confined.hand {disk device : String} {machine : Machine} (confined : Confined disk machine)
    (tool : DeviceTool) (own : device = disk ∨ machine.devices.OwnOrAbsent disk device) :
    Confined disk (machine.hand tool device) := by
  intro handover handed node node_eq
  rcases List.mem_cons.mp handed with rfl | earlier
  · rcases own with disk_eq | ownOrAbsent
    · exact Or.inl disk_eq
    · exact Or.inr (ownOrAbsent node node_eq)
  · exact confined handover earlier node node_eq

/-- The target is chosen and everything handed out so far belongs to it. -/
structure Safe (disk : String) (state : State) : Prop where
  target : state.options.targetDisk = disk
  clear : NoForeignRoot state.machine.devices disk
  confined : Confined disk state.machine

/-- In addition `ROOT_PART` is known and names no foreign device. -/
structure SafeRoot (disk : String) (state : State) : Prop extends Safe disk state where
  root : state.machine.devices.OwnOrAbsent disk state.rootPart

theorem gates_machine (env : Environment) (argv : List String) (machine : Machine) :
    (gates env argv).Preserves fun state => state.machine = machine := by
  simp only [gates, interactive, Script.block, Script.when, Script.Preserves, parse, readLine,
    Command.of, Command.attempt, and_true, true_and]
  refine ⟨fun _ same => same, ?_, ?_, ?_, ?_⟩
  · intro state same
    split <;> exact same
  · intro state same
    split <;> exact same
  · intro state same
    split <;> exact same
  · intro state same
    split <;> exact same

theorem sfdisk_safe (env : Environment) (call : Call) {done : String → Machine → Machine}
    (quiet : ∀ device machine, (done device machine).devices = machine.devices ∧
      (done device machine).handed = machine.handed)
    {disk : String} (state : State) (safe : Safe disk state) :
    Safe disk (sfdisk env call done state).2 := by
  have handed : Confined disk (state.machine.hand .sfdisk state.options.targetDisk) :=
    safe.confined.hand .sfdisk (Or.inl safe.target)
  have clear : NoForeignRoot
      (state.machine.devices.repartition state.options.targetDisk (env.partitions call)) disk := by
    rw [safe.target]
    exact (noForeignRoot_repartition _ _ _).mpr safe.clear
  simp only [sfdisk, Command.of, onMachine]
  split
  · refine ⟨safe.target, ?_, ?_⟩
    · simpa only [(quiet _ _).1] using clear
    · simpa only [Confined, (quiet _ _).2] using handed
  · exact ⟨safe.target, clear, handed⟩

theorem prepare_triple (env : Environment) (disk : String) :
    (prepare env).Triple (Safe disk) (Safe disk) (Safe disk) := by
  have rootSet : (Script.run (setRootPart env)).Triple (Safe disk) (SafeRoot disk) (Safe disk) := by
    apply Script.triple_run
    · intro state safe _
      have names := (noForeignRoot_iff _ _).mp safe.clear (env.ok .grep)
      exact ⟨⟨safe.target, safe.clear, safe.confined⟩, by simpa [setRootPart, Command.attempt,
        Command.of, safe.target] using names⟩
    · intro state _ failed
      exact absurd rfl failed
  have formatted : (Script.run (mkfs env)).Triple (SafeRoot disk) (SafeRoot disk) (Safe disk) := by
    apply (Script.triple_run_same ?_).mono (fun _ safe => safe) (fun _ safe => safe)
      (fun _ safe => safe.toSafe)
    intro state safe
    have handed := safe.confined.hand .mkfs (Or.inr safe.root)
    simp only [mkfs, Command.of, onMachine]
    split <;> exact ⟨⟨safe.target, safe.clear, handed⟩, safe.root⟩
  have mounted : (Script.run (mount env)).Triple (SafeRoot disk) (Safe disk) (Safe disk) := by
    apply Script.triple_run_same
    intro state safe
    have handed := safe.confined.hand .mount (Or.inr safe.root)
    simp only [mount, Command.of, onMachine]
    split <;> exact ⟨safe.target, safe.clear, handed⟩
  have made : (Script.run (mkdirMountDir env)).Triple (Safe disk) (Safe disk) (Safe disk) := by
    apply Script.triple_run_same
    intro state safe
    simp only [mkdirMountDir, Command.attempt, Command.of, onMachine]
    split
    · exact ⟨safe.target, safe.clear, safe.confined⟩
    · exact safe
  have labelled : (Script.run (sfdiskLabel env)).Triple (Safe disk) (Safe disk) (Safe disk) := by
    apply Script.triple_run_same
    apply sfdisk_safe
    exact fun _ _ => ⟨rfl, rfl⟩
  have partitioned :
      (Script.run (sfdiskPartition env)).Triple (Safe disk) (Safe disk) (Safe disk) := by
    apply Script.triple_run_same
    apply sfdisk_safe
    exact fun _ _ => ⟨rfl, rfl⟩
  have rewritten : (Script.block [.run (sfdiskLabel env), .run (sfdiskPartition env)]).Triple
      (Safe disk) (Safe disk) (Safe disk) :=
    Script.triple_seq labelled (Script.triple_seq partitioned Script.triple_skip)
  exact Script.triple_seq made (Script.triple_seq
    (Script.triple_when
      (rewritten.mono (fun _ holds => holds.1) (fun _ safe => safe) (fun _ safe => safe))
      (fun _ safe _ => safe))
    (Script.triple_seq rootSet (Script.triple_seq formatted
      (Script.triple_seq mounted Script.triple_skip))))

/-- Safety reads only the target, the devices and what has been handed out. -/
theorem Safe.congr {disk : String} {state next : State} (safe : Safe disk state)
    (options_eq : next.options = state.options)
    (devices_eq : next.machine.devices = state.machine.devices)
    (handed_eq : next.machine.handed = state.machine.handed) : Safe disk next := by
  refine ⟨?_, ?_, ?_⟩
  · rw [options_eq]
    exact safe.target
  · rw [devices_eq]
    exact safe.clear
  · simpa only [Confined, handed_eq] using safe.confined

/-- After the mount only `limine` is handed a device, and it is the disk. -/
theorem populate_safe (env : Environment) (disk : String) :
    (populate env).Preserves (Safe disk) := by
  have biosInstall_safe : ∀ state, Safe disk state → Safe disk (biosInstall env state).2 := by
    intro state safe
    have handed := safe.confined.hand .limine (Or.inl safe.target)
    simp only [biosInstall, Command.of, onMachine]
    split <;> exact ⟨safe.target, safe.clear, handed⟩
  simp only [populate, setAccounts, Script.block, Script.when, Script.Preserves, and_true]
  exact ⟨fun _ safe => safe.congr rfl rfl rfl,
    fun _ safe => Command.attempt_snd (Safe disk) safe safe,
    fun _ safe => Command.attempt_snd (Safe disk) safe (safe.congr rfl rfl rfl),
    biosInstall_safe,
    fun _ safe => Command.attempt_snd (Safe disk) safe (safe.congr rfl rfl rfl),
    fun _ safe => Command.attempt_snd (Safe disk) safe (safe.congr rfl rfl rfl),
    ⟨fun _ safe => safe.congr rfl rfl rfl, fun _ safe => safe.congr rfl rfl rfl,
      fun _ safe => safe.congr rfl rfl rfl⟩,
    fun _ safe => Command.attempt_snd (Safe disk) safe (safe.congr rfl rfl rfl)⟩

/-- From an admitted target without foreign nodes, everything that follows the
gates stays confined. -/
theorem install_safe (env : Environment) (disk : String) :
    (Script.seq (prepare env) (populate env)).Triple (Safe disk) (Safe disk) (Safe disk) :=
  Script.triple_seq (prepare_triple env disk) (populate_safe env disk).triple

/-- The target is not reassigned after the gates. -/
theorem install_target (env : Environment) (disk : String) :
    (Script.seq (prepare env) (populate env)).Preserves
      fun state => state.options.targetDisk = disk := by
  simp only [prepare, populate, setAccounts, Script.block, Script.when, Script.Preserves,
    and_true]
  have attempted : ∀ (ok : Bool) (effect : State → State) (state : State),
      (effect state).options = state.options → state.options.targetDisk = disk →
        (Command.attempt ok effect state).2.options.targetDisk = disk := by
    intro ok effect state options_eq target
    apply Command.attempt_snd (fun state : State => state.options.targetDisk = disk) target
    rw [options_eq]
    exact target
  exact ⟨⟨fun _ target => attempted _ _ _ rfl target,
      ⟨fun _ target => target, fun _ target => target⟩, fun _ target => target,
      fun _ target => target, fun _ target => target⟩,
    fun _ target => target, fun _ target => attempted _ _ _ rfl target,
    fun _ target => attempted _ _ _ rfl target, fun _ target => target,
    fun _ target => attempted _ _ _ rfl target, fun _ target => attempted _ _ _ rfl target,
    ⟨fun _ target => target, fun _ target => target, fun _ target => target⟩,
    fun _ target => attempted _ _ _ rfl target⟩

/-- A run whose target has no foreign root node is confined to the target. -/
theorem confined_of_noForeignRoot (env : Environment) (argv stdin : List String)
    (devices : DeviceTable) (mounts : List Mount) :
    let final := ((installer env argv).exec (.start stdin (.untouched devices mounts))).state
    NoForeignRoot devices final.options.targetDisk →
      Confined final.options.targetDisk final.machine := by
  intro final clear
  have machine_eq := (gates_machine env argv (.untouched devices mounts)).triple.state
    (.start stdin (.untouched devices mounts)) rfl
  have final_eq : final =
      ((installer env argv).exec (.start stdin (.untouched devices mounts))).state := rfl
  rw [installer, Script.exec_seq] at final_eq
  cases gated : (gates env argv).exec (.start stdin (.untouched devices mounts)) with
  | exited code stopped =>
      rw [gated] at machine_eq final_eq
      have stopped_eq : final.machine = .untouched devices mounts := by
        rw [final_eq]
        exact machine_eq
      rw [stopped_eq]
      intro handover handed
      simp [Machine.untouched] at handed
  | continues admitted =>
      rw [gated] at machine_eq final_eq
      have admitted_eq : admitted.machine = .untouched devices mounts := machine_eq
      have target_eq : final.options.targetDisk = admitted.options.targetDisk := by
        rw [final_eq]
        exact (install_target env admitted.options.targetDisk).triple.state admitted rfl
      have safe : Safe admitted.options.targetDisk admitted := by
        refine ⟨rfl, ?_, ?_⟩
        · rw [admitted_eq, ← target_eq]
          exact clear
        · rw [admitted_eq]
          intro handover handed
          simp [Machine.untouched] at handed
      rw [target_eq, final_eq]
      exact ((install_safe env admitted.options.targetDisk).state admitted safe).confined

/-- Root on a machine without `sfdisk`, `limine` and `chroot`, where every other
command succeeds except that `grep` may fail. -/
def bareEnvironment (grepWorks : Bool) : Environment where
  uid := 0
  has := fun _ => false
  ok := fun call => decide (call ≠ .grep) || grepWorks
  partitions := fun _ => []
  copies := fun _ => true
  live := ⟨[], [], ""⟩
  fragmentAccounts := []
  fragmentTimezone := none
  knowsUid := fun _ => false
  applies := fun _ _ => false

/-- The non-interactive gates, passed by root with a valid target. -/
theorem exec_gates_nonInteractive {env : Environment} {argv : List String} {options : Options}
    {machine : Machine} (root : env.uid = 0)
    (parsed : parseArguments .default argv = some options)
    (quiet : options.nonInteractive = true) (named : options.targetDisk ≠ "")
    (block : machine.devices.isBlock options.targetDisk = true) (stdin : List String) :
    (gates env argv).exec (.start stdin machine) =
      .continues { State.start stdin machine with options } := by
  simp [gates, Script.exec_seq, Script.exec_run_of, parse, State.start, parsed, root, quiet,
    targetInvalid, named, block]

/-- The bare run formats and mounts the computed partition. -/
theorem bareRun_hands {devices : DeviceTable} {disk : String} (named : disk ≠ "")
    (block : devices.isBlock disk = true) (grepWorks : Bool) :
    let final := ((installer (bareEnvironment grepWorks) ["--non-interactive", "--disk", disk]).exec
      (.start [] (.untouched devices []))).state
    final.options.targetDisk = disk ∧
      ⟨.mkfs, rootPartition grepWorks disk, devices.node (rootPartition grepWorks disk)⟩ ∈
        final.machine.handed := by
  have parsed : parseArguments .default ["--non-interactive", "--disk", disk] =
      some { Options.default with nonInteractive := true, targetDisk := disk } :=
    (parseArguments_nonInteractive _ _).trans (parseArguments_flag _ .disk disk [])
  have gated : (gates (bareEnvironment grepWorks) ["--non-interactive", "--disk", disk]).exec
      (.start [] (.untouched devices [])) = _ :=
    exec_gates_nonInteractive rfl parsed rfl named block []
  rw [installer, Script.exec_seq_of_continues gated]
  simp [prepare, populate, Script.exec_seq, Script.exec_run_of, Script.exec_run_attempt,
    Script.exec_tolerate_of, Script.exec_tolerate_attempt, State.start, Machine.untouched,
    bareEnvironment, mkdirMountDir, setRootPart, mkfs, mount, copySystem, mkdirTree, writeFstab,
    writeHostname, umount, onMachine, onTarget, Machine.hand]

/-- Over all runs that choose `disk`, the installer is confined to `disk` if and
only if no node it can compute for the first partition belongs to another
device. -/
theorem confined_iff_noForeignRoot (devices : DeviceTable) (disk : String) (named : disk ≠ "")
    (block : devices.isBlock disk = true) :
    (∀ (env : Environment) (argv stdin : List String) (mounts : List Mount),
      let final := ((installer env argv).exec (.start stdin (.untouched devices mounts))).state
      final.options.targetDisk = disk → Confined disk final.machine) ↔
    NoForeignRoot devices disk := by
  constructor
  · intro confined
    rw [noForeignRoot_iff]
    intro grepWorks node node_eq
    obtain ⟨target_eq, handed⟩ := bareRun_hands named block grepWorks
    rcases confined _ _ _ _ target_eq _ handed node node_eq with disk_eq | own
    · exfalso
      have characters := congrArg String.toList disk_eq
      unfold rootPartition at characters
      split at characters <;> simp at characters
    · exact own
  · intro clear env argv stdin mounts final target_eq
    have confined := confined_of_noForeignRoot env argv stdin devices mounts
    have clear' : NoForeignRoot devices final.options.targetDisk := by
      rw [target_eq]
      exact clear
    rw [← target_eq]
    exact confined clear'

/-- Two network block devices, of which neither belongs to the other. -/
def nbdDevices : DeviceTable where
  node name := if name = "/dev/nbd1" ∨ name = "/dev/nbd11" then some .disk else none
  named := by
    intro name parent number node
    split at node <;> simp at node

/-- Installing to `/dev/nbd1` formats the whole disk `/dev/nbd11`. -/
theorem nbd_not_confined :
    ¬ ∀ (devices : DeviceTable) (disk : String), disk ≠ "" → devices.isBlock disk = true →
      ∀ (env : Environment) (argv stdin : List String) (mounts : List Mount),
        let final := ((installer env argv).exec (.start stdin (.untouched devices mounts))).state
        final.options.targetDisk = disk → Confined disk final.machine := by
  intro confined
  have named : "/dev/nbd1" ≠ "" := by decide
  have block : nbdDevices.isBlock "/dev/nbd1" = true := by decide
  have root_eq : rootPartition true "/dev/nbd1" = "/dev/nbd11" := by decide
  have whole : nbdDevices.node "/dev/nbd11" = some .disk := by decide
  obtain ⟨target_eq, handed⟩ := bareRun_hands named block true
  rw [root_eq, whole] at handed
  rcases confined nbdDevices _ named block _ _ _ _ target_eq _ handed .disk rfl with
    disk_eq | ⟨number, node_eq⟩
  · simp at disk_eq
  · cases node_eq

/-- A SATA disk with one partition. -/
def sataDevices : DeviceTable where
  node name :=
    if name = "/dev/sda" then some .disk
    else if name = "/dev/sda1" then some (.partition "/dev/sda" 1)
    else none
  named := by
    intro name parent number node
    split at node
    · simp at node
    · split at node
      · rename_i name_eq
        simp only [Option.some.injEq, DeviceNode.partition.injEq] at node
        obtain ⟨rfl, rfl⟩ := node
        subst name_eq
        exact ⟨by simp, Nat.le_refl 1, by decide⟩
      · contradiction

/-- On a SATA disk every run is confined. -/
theorem sata_confined :
    sataDevices.isBlock "/dev/sda" = true ∧
      ∀ (env : Environment) (argv stdin : List String) (mounts : List Mount),
        let final :=
          ((installer env argv).exec (.start stdin (.untouched sataDevices mounts))).state
        final.options.targetDisk = "/dev/sda" → Confined "/dev/sda" final.machine := by
  refine ⟨by decide, ?_⟩
  refine (confined_iff_noForeignRoot sataDevices "/dev/sda" (by decide) (by decide)).mpr ⟨?_, ?_⟩
  · intro node node_eq
    refine ⟨1, ?_⟩
    have own : sataDevices.node ("/dev/sda" ++ "1") = some (.partition "/dev/sda" 1) := by decide
    exact Option.some.inj (node_eq.symm.trans own)
  · intro nvme
    exact absurd nvme (by decide)

end AqjOs.Installer
