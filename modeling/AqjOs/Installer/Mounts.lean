import AqjOs.Installer.Confinement

/-!
# The mount table after the installer has exited

The script mounts the target in step 4/6 and unmounts it in step 6/6, with no
trap for the exits in between.  A run leaves the mount table as it found it
exactly when it does not get as far as mounting, or when none of the plain
commands between mount and unmount fails and the unmount itself succeeds.
-/

namespace AqjOs.Installer

open AqjOs.Shell

/-- Every command up to and including the mount succeeds. -/
structure Prepares (env : Environment) : Prop where
  mountDir : env.ok .mkdirMountDir = true
  partitions : env.has .sfdisk = true →
    env.ok .sfdiskLabel = true ∧ env.ok .sfdiskPartition = true
  mkfs : env.ok .mkfs = true
  mount : env.ok .mount = true

/-- The run passes the gates and mounts the target. -/
def ReachesMount (env : Environment) (argv : List String) (state : State) : Prop :=
  (∃ admitted, (gates env argv).exec state = .continues admitted) ∧ Prepares env

/-- Every plain command after the mount succeeds, and so does the unmount. -/
structure Unmounts (env : Environment) : Prop where
  tree : env.ok .mkdirTree = true
  fstab : env.ok .writeFstab = true
  hostname : env.ok .writeHostname = true
  umount : env.ok .umount = true

theorem running_prepare (env : Environment) (state : State) :
    ((prepare env).exec state).running = true ↔ Prepares env := by
  simp only [prepare, Script.block_cons, Script.block_nil, Script.exec_seq, Script.exec_when,
    Script.exec_run_of, Script.exec_run_attempt, Script.exec_skip, Outcome.bind_continues,
    Outcome.bind_exited, Outcome.bind_ite, Outcome.running_ite, Outcome.running_continues,
    Outcome.running_exited, mkdirMountDir, sfdiskLabel, sfdiskPartition, sfdisk, setRootPart, mkfs,
    mount, if_true]
  constructor
  · intro runs
    by_cases present : env.has .sfdisk = true
    · simp only [present, if_true, Bool.if_false_right, Bool.decide_eq_true,
        Bool.and_eq_true, and_true] at runs
      exact ⟨runs.1, fun _ => ⟨runs.2.1, runs.2.2.1⟩, runs.2.2.2.1, runs.2.2.2.2⟩
    · simp only [present, Bool.false_eq_true, if_false, Bool.if_false_right, Bool.decide_eq_true,
        Bool.and_eq_true, and_true] at runs
      exact ⟨runs.1, fun absurdity => absurd absurdity present, runs.2.1, runs.2.2⟩
  · rintro ⟨mountDir, partitions, mkfs, mount⟩
    by_cases present : env.has .sfdisk = true
    · simp [present, mountDir, (partitions present).1, (partitions present).2, mkfs, mount]
    · simp [present, mountDir, mkfs, mount]

theorem running_populate (env : Environment) (state : State) :
    ((populate env).exec state).running = true ↔
      env.ok .mkdirTree = true ∧ env.ok .writeFstab = true ∧ env.ok .writeHostname = true := by
  simp only [populate, Script.block_cons, Script.block_nil, Script.exec_seq, Script.exec_when,
    Script.exec_run_attempt, Script.exec_tolerate_of, Script.exec_tolerate_attempt,
    Script.exec_skip, Outcome.bind_continues, Outcome.bind_exited, Outcome.bind_ite,
    Outcome.running_ite, Outcome.running_continues, Outcome.running_exited,
    copySystem, mkdirTree, copyBoot, biosInstall, writeFstab, writeHostname, setAccounts,
    createUser, chpasswdUser, chpasswdRoot, chpasswd, umount, ite_self]
  simp

/-- The mount table with the target on top of `mounts`. -/
def Mounted (mounts : List Mount) (state : State) : Prop :=
  ∃ source, state.machine.mounts = ⟨source, mountDir⟩ :: mounts

/-- Before the mount succeeds the mount table does not change. -/
theorem prepare_mounts (env : Environment) (mounts : List Mount) :
    (prepare env).Triple (fun state => state.machine.mounts = mounts) (Mounted mounts)
      (fun state => state.machine.mounts = mounts) := by
  have quietSfdisk : ∀ (call : Call) (done : String → Machine → Machine) (state : State),
      (∀ device machine, (done device machine).mounts = machine.mounts) →
        state.machine.mounts = mounts →
          (sfdisk env call done state).2.machine.mounts = mounts := by
    intro call done state quiet same
    simp only [sfdisk, Command.of, onMachine]
    split
    · rw [quiet]
      exact same
    · exact same
  have quiet : (Script.block [.run (mkdirMountDir env),
      .when (fun _ => env.has .sfdisk)
        (.block [.run (sfdiskLabel env), .run (sfdiskPartition env)]),
      .run (setRootPart env), .run (mkfs env)]).Preserves
        fun state => state.machine.mounts = mounts := by
    simp only [Script.block, Script.when, Script.Preserves, and_true]
    refine ⟨?_, ⟨?_, ?_⟩, fun _ same => same, ?_⟩
    · intro state same
      exact Command.attempt_snd (fun state : State => state.machine.mounts = mounts) same same
    · exact fun state same => quietSfdisk _ _ state (fun _ _ => rfl) same
    · exact fun state same => quietSfdisk _ _ state (fun _ _ => rfl) same
    · intro state same
      simp only [mkfs, Command.of, onMachine]
      split <;> exact same
  have mounted : (Script.run (mount env)).Triple (fun state => state.machine.mounts = mounts)
      (Mounted mounts) (fun state => state.machine.mounts = mounts) := by
    intro state same
    rw [mount, Script.exec_run_of]
    by_cases ok : env.ok .mount = true
    · simp only [ok, if_true]
      exact ⟨state.rootPart, by rw [← same]; rfl⟩
    · simp only [ok, Bool.false_eq_true, if_false]
      exact same
  obtain ⟨made, partitioned, rooted, formatted, _⟩ := quiet
  exact Script.triple_seq (Script.triple_run_same made) (Script.triple_seq partitioned.triple
    (Script.triple_seq (Script.triple_run_same rooted) (Script.triple_seq
      (Script.triple_run_same formatted) (Script.triple_seq mounted Script.triple_skip))))

/-- After the mount only the final unmount touches the mount table. -/
theorem populate_mounts (env : Environment) (mounts : List Mount) :
    (populate env).Triple (Mounted mounts)
      (fun state =>
        if env.ok .umount = true then state.machine.mounts = mounts else Mounted mounts state)
      (Mounted mounts) := by
  have unmounted : (Script.tolerate (umount env)).Triple (Mounted mounts)
      (fun state =>
        if env.ok .umount = true then state.machine.mounts = mounts else Mounted mounts state)
      (Mounted mounts) := by
    rintro state ⟨source, mounts_eq⟩
    rw [umount, Script.exec_tolerate_attempt]
    by_cases ok : env.ok .umount = true
    · simp [ok, onMachine, mounts_eq]
    · simp only [ok]
      exact ⟨source, mounts_eq⟩
  have quiet : (Script.block [.tolerate (copySystem env), .run (mkdirTree env),
      .when (fun _ => decide ("boot" ∈ env.live.directories)) (.tolerate (copyBoot env)),
      .when (fun _ => env.has .limine) (.tolerate (biosInstall env)),
      .run (writeFstab env), .run (writeHostname env),
      .when (fun _ => env.has .chroot) (setAccounts env)]).Preserves (Mounted mounts) := by
    simp only [setAccounts, Script.block, Script.when, Script.Preserves, and_true]
    refine ⟨fun _ same => same, fun _ same => Command.attempt_snd (Mounted mounts) same same,
      fun _ same => Command.attempt_snd (Mounted mounts) same same, ?_,
      fun _ same => Command.attempt_snd (Mounted mounts) same same,
      fun _ same => Command.attempt_snd (Mounted mounts) same same,
      fun _ same => same, fun _ same => same, fun _ same => same⟩
    intro state same
    simp only [biosInstall, Command.of, onMachine]
    split <;> exact same
  obtain ⟨copied, made, boot, limine, fstab, hostname, accounts, _⟩ := quiet
  exact Script.triple_seq (Script.triple_tolerate copied) (Script.triple_seq
    (Script.triple_run_same made) (Script.triple_seq boot.triple (Script.triple_seq limine.triple
      (Script.triple_seq (Script.triple_run_same fstab) (Script.triple_seq
        (Script.triple_run_same hostname) (Script.triple_seq accounts.triple
          (Script.triple_seq unmounted Script.triple_skip)))))))

theorem Mounted.ne {mounts : List Mount} {state : State} (mounted : Mounted mounts state) :
    state.machine.mounts ≠ mounts := by
  obtain ⟨source, mounts_eq⟩ := mounted
  rw [mounts_eq]
  intro equal
  have lengths := congrArg List.length equal
  simp at lengths

/-- What the part of the script behind the gates leaves of the mount table. -/
theorem install_mounts_iff (env : Environment) (state : State) :
    ((Script.seq (prepare env) (populate env)).exec state).state.machine.mounts =
        state.machine.mounts ↔ (Prepares env → Unmounts env) := by
  have prepared := prepare_mounts env state.machine.mounts state rfl
  have runs := running_prepare env state
  rw [Script.exec_seq]
  cases first : (prepare env).exec state with
  | exited code stopped =>
      rw [first] at prepared runs
      have notPrepares : ¬ Prepares env := fun prepares => by simpa using runs.mpr prepares
      simp only [Outcome.bind_exited, Outcome.state_exited]
      exact ⟨fun _ prepares => absurd prepares notPrepares, fun _ => prepared⟩
  | continues ready =>
      rw [first] at prepared runs
      have prepares : Prepares env := runs.mp rfl
      have populated := populate_mounts env state.machine.mounts ready prepared
      have runsOn := running_populate env ready
      simp only [Outcome.bind_continues]
      cases second : (populate env).exec ready with
      | exited code stopped =>
          rw [second] at populated runsOn
          constructor
          · intro same
            exact absurd same populated.ne
          · intro unmounts
            have all := unmounts prepares
            simpa using runsOn.mpr ⟨all.tree, all.fstab, all.hostname⟩
      | continues final =>
          rw [second] at populated runsOn
          obtain ⟨tree, fstab, hostname⟩ := runsOn.mp rfl
          simp only [Outcome.state_continues] at populated ⊢
          by_cases ok : env.ok .umount = true
          · rw [if_pos ok] at populated
            exact ⟨fun _ _ => ⟨tree, fstab, hostname, ok⟩, fun _ => populated⟩
          · rw [if_neg ok] at populated
            constructor
            · intro same
              exact absurd same populated.ne
            · intro unmounts
              exact absurd (unmounts prepares).umount ok

/-- However the script exits, it leaves the mount table as it was if and only
if a run that gets as far as mounting the target meets no failure from there to
the unmount. -/
theorem mounts_restored_iff (env : Environment) (argv : List String) (state : State) :
    ((installer env argv).exec state).state.machine.mounts = state.machine.mounts ↔
      (ReachesMount env argv state → Unmounts env) := by
  have machine_eq := (gates_machine env argv state.machine).triple.state state rfl
  rw [installer, Script.exec_seq]
  cases gated : (gates env argv).exec state with
  | exited code stopped =>
      rw [gated] at machine_eq
      simp only [Outcome.state_exited] at machine_eq
      simp only [Outcome.bind_exited, Outcome.state_exited, machine_eq, true_iff]
      rintro ⟨⟨admitted, continued⟩, _⟩
      rw [gated] at continued
      contradiction
  | continues admitted =>
      rw [gated] at machine_eq
      simp only [Outcome.state_continues] at machine_eq
      rw [Outcome.bind_continues, ← machine_eq, install_mounts_iff]
      constructor
      · rintro unmounts ⟨_, prepares⟩
        exact unmounts prepares
      · intro unmounts prepares
        exact unmounts ⟨⟨admitted, gated⟩, prepares⟩

/-- Root on a machine without `sfdisk`, `limine` and `chroot`, where only the
creation of the directory tree fails. -/
def fullTargetEnvironment : Environment :=
  { bareEnvironment true with ok := fun call => decide (call ≠ .mkdirTree) }

/-- A run that fails to create the directory tree leaves the target mounted. -/
theorem mkdirTree_failure_leaves_mount :
    ¬ ∀ (env : Environment) (argv : List String) (state : State),
      ((installer env argv).exec state).state.machine.mounts = state.machine.mounts := by
  intro restored
  have parsed : parseArguments .default ["--non-interactive", "--disk", "/dev/sda"] =
      some { Options.default with nonInteractive := true, targetDisk := "/dev/sda" } := by decide
  have gated : (gates fullTargetEnvironment ["--non-interactive", "--disk", "/dev/sda"]).exec
      (.start [] (.untouched sataDevices [])) = _ :=
    exec_gates_nonInteractive rfl parsed rfl (by decide) (by decide) []
  have prepares : Prepares fullTargetEnvironment :=
    ⟨rfl, fun absent => absurd absent (by decide), rfl, rfl⟩
  have same := restored fullTargetEnvironment ["--non-interactive", "--disk", "/dev/sda"]
    (.start [] (.untouched sataDevices []))
  rw [installer, Script.exec_seq_of_continues gated] at same
  exact absurd ((install_mounts_iff _ _).mp same prepares).tree (by decide)

end AqjOs.Installer
