import AqjOs.Transition.Run
import AqjOs.Wizard.Core

/-!
# The disk that the wizard passes to `aqj-install`

The selection is a display string that survives every rescan, while the table
that decodes it is rebuilt by every visit of the disk page.  If the selected
entry is still listed when the user accepts the dialogue, the device shown is
the device passed and a disk of the latest scan; if it is not, the dialogue shows
the raw entry and the thread passes it on.
-/

namespace AqjOs.Wizard

open AqjOs.Transition

/-- `path` is the device path of an entry that the scan has returned. -/
def Reported (scan : Scan) (path : String) : Prop :=
  ∃ entry ∈ scan.disks, scan.disksInfo.lookup entry = some path

/-- Whenever the thread launches `aqj-install`, the disk on its command line is
the one in the accepted dialogue and a disk of the latest scan. -/
def LaunchesConfirmed (state : State) (event : Event) : Prop :=
  ∀ command, state.thread = .started → (step state event).thread = .launched command →
    ∃ shown, state.accepted = some shown ∧
      (Installer.parseArguments .default command).map (·.targetDisk) = some shown.drive ∧
      Reported state.scan shown.drive

/-- A dialogue is accepted only while the selected entry is one of the entries
that the latest scan has returned. -/
def EntryListed (state : State) : Event → Prop
  | .confirm true => state.page = .config → state.selected ∈ state.scan.disks
  | _ => True

instance EntryListed.decidable : (state : State) → (event : Event) →
    Decidable (EntryListed state event)
  | state, .confirm true =>
      inferInstanceAs (Decidable (state.page = .config → state.selected ∈ state.scan.disks))
  | _, .confirm false => isTrue trivial
  | _, .next _ => isTrue trivial
  | _, .back _ => isTrue trivial
  | _, .select _ => isTrue trivial
  | _, .edit _ => isTrue trivial
  | _, .launch => isTrue trivial
  | _, .exits _ => isTrue trivial

/-- The dialogue that a started thread works for shows the device it will pass,
which the latest scan has reported. -/
structure Faithful (state : State) : Prop where
  agrees : state.scan.Agrees
  inFront : state.thread = .started → state.page = .install
  confirmed : state.thread = .started → ∃ shown, state.accepted = some shown ∧
    shown.drive = passedDisk state ∧ Reported state.scan shown.drive

/-- A listed entry is decoded by the table. -/
theorem reported_targetDevice {scan : Scan} (agrees : scan.Agrees) {entry : String}
    (listed : entry ∈ scan.disks) : Reported scan (targetDevice scan entry) := by
  have isKey : entry ∈ scan.disksInfo := (agrees entry).mp listed
  obtain ⟨path, found⟩ := Option.isSome_iff_exists.mp (AList.lookup_isSome.mpr isKey)
  refine ⟨entry, listed, ?_⟩
  rw [targetDevice, found]
  rfl

theorem faithful_start : Faithful .start where
  agrees := Scan.agrees_empty
  inFront := by intro started; contradiction
  confirmed := by intro started; contradiction

/-- Events that keep the thread from being started keep faithfulness. -/
theorem faithful_of_not_started {state : State} (agrees : state.scan.Agrees)
    (notStarted : state.thread ≠ .started) : Faithful state where
  agrees := agrees
  inFront := fun started => absurd started notStarted
  confirmed := fun started => absurd started notStarted

theorem Faithful.notStarted {state : State} (faithful : Faithful state)
    (elsewhere : state.page ≠ .install) : state.thread ≠ .started :=
  fun started => elsewhere (faithful.inFront started)

theorem Faithful.showDisk {state : State} (faithful : Faithful state)
    (elsewhere : state.page ≠ .install) (probe : Probe) :
    Faithful (Wizard.showDisk probe state) :=
  faithful_of_not_started (getAvailableDisks_agrees probe) (faithful.notStarted elsewhere)

theorem Faithful.goNext {state : State} (faithful : Faithful state) (probe : Probe) :
    Faithful (Wizard.goNext probe state) := by
  unfold Wizard.goNext
  split
  · rename_i page_eq
    exact faithful.showDisk (by simp [page_eq]) probe
  · rename_i page_eq
    split
    · exact faithful
    · exact faithful_of_not_started faithful.agrees (faithful.notStarted (by simp [page_eq]))
  · exact faithful
  · exact faithful

theorem Faithful.goBack {state : State} (faithful : Faithful state) (probe : Probe) :
    Faithful (Wizard.goBack probe state) := by
  unfold Wizard.goBack
  split
  · exact faithful
  · rename_i page_eq
    exact faithful_of_not_started faithful.agrees (faithful.notStarted (by simp [page_eq]))
  · rename_i page_eq
    exact faithful.showDisk (by simp [page_eq]) probe
  · exact faithful

theorem Faithful.select {state : State} (faithful : Faithful state) (index : Nat) :
    Faithful (Wizard.select index state) := by
  unfold Wizard.select
  split
  · rename_i page_eq _
    exact faithful_of_not_started faithful.agrees (faithful.notStarted (by simp [page_eq]))
  · exact faithful

/-- Accepting the dialogue while the entry is listed starts a faithful thread. -/
theorem Faithful.confirmInstall {state : State} (faithful : Faithful state) (yes : Bool)
    (listed : yes = true → state.page = .config → state.selected ∈ state.scan.disks) :
    Faithful (Wizard.confirmInstall yes state) := by
  unfold Wizard.confirmInstall
  split
  · rename_i accepts
    have entry := listed accepts.2 accepts.1
    exact ⟨faithful.agrees, fun _ => rfl, fun _ => ⟨confirmation state, rfl, rfl,
      reported_targetDevice faithful.agrees entry⟩⟩
  · exact faithful

/-- One event keeps faithfulness. -/
theorem Faithful.step {state : State} (faithful : Faithful state) {event : Event}
    (listed : EntryListed state event) : Faithful (Wizard.step state event) := by
  cases event with
  | next probe => exact faithful.goNext probe
  | back probe => exact faithful.goBack probe
  | select index => exact faithful.select index
  | edit form =>
      simp only [Wizard.step]
      split
      · rename_i page_eq
        exact faithful_of_not_started faithful.agrees (faithful.notStarted (by simp [page_eq]))
      · exact faithful
  | confirm yes =>
      apply faithful.confirmInstall yes
      rintro rfl page_eq
      exact listed page_eq
  | launch =>
      simp only [Wizard.step, runInstallation]
      split
      · exact faithful_of_not_started faithful.agrees (by simp)
      · exact faithful
  | exits code =>
      simp only [Wizard.step, installerExits]
      split
      · exact faithful_of_not_started faithful.agrees (by simp)
      · exact faithful

/-- Only the thread itself moves on from its start. -/
theorem thread_step_of_ne_launch {state : State} {event : Event}
    (started : state.thread = .started) (other : event ≠ .launch) :
    (step state event).thread = .started := by
  cases event with
  | next probe =>
      simp only [step, goNext, showDisk]
      split
      · exact started
      · split <;> exact started
      · exact started
      · exact started
  | back probe =>
      simp only [step, goBack, showDisk]
      split <;> exact started
  | select index =>
      simp only [step, select]
      split <;> exact started
  | edit form =>
      simp only [step]
      split <;> exact started
  | confirm yes =>
      simp only [step, confirmInstall]
      split
      · rfl
      · exact started
  | launch => contradiction
  | exits code => simp [step, installerExits, started]

theorem command_of_launched {state : State} {event : Event} {command : List String}
    (started : state.thread = .started)
    (launched : (step state event).thread = .launched command) :
    command = Installer.installCommand (passedDisk state) state.form.hostname
      state.form.username state.form.password := by
  by_cases launch : event = .launch
  · subst launch
    simp only [step, runInstallation, started, if_true, Thread.launched.injEq] at launched
    exact launched.symm
  · rw [thread_step_of_ne_launch started launch] at launched
    contradiction

theorem Faithful.launchesConfirmed {state : State} (faithful : Faithful state) (event : Event) :
    LaunchesConfirmed state event := by
  intro command started launched
  obtain ⟨shown, accepted, drive_eq, reported⟩ := faithful.confirmed started
  refine ⟨shown, accepted, ?_, reported⟩
  rw [command_of_launched started launched, Installer.parseArguments_installCommand, drive_eq]
  rfl

/-- In every run in which each accepted dialogue finds the selected entry in the
latest scan, every launch passes the disk shown in the accepted dialogue, and it
is a disk of the latest scan. -/
theorem launchesConfirmed_of_entryListed (events : List Event)
    (listed : Along step EntryListed .start events) :
    Along step LaunchesConfirmed .start events :=
  along_of_invariant (fun _ _ faithful meets => faithful.step meets)
    (fun _ event faithful _ => faithful.launchesConfirmed event) faithful_start listed

/-- A machine with one disk. -/
def oneDisk (name : String) : Probe where
  json := some [⟨name, "10G", "disk", .text "QEMU"⟩]
  listing := none

/-- The straight way through the wizard. -/
def straightRun : List Event :=
  [.next (oneDisk "sda"), .next (oneDisk "sda"), .confirm true, .launch]

theorem straightRun_launchesConfirmed : Along step LaunchesConfirmed .start straightRun :=
  launchesConfirmed_of_entryListed straightRun (by decide)

/-- Go back from the configuration page after the selected disk has been taken
out and another has been plugged in. -/
def replugRun : List Event :=
  [.next (oneDisk "sda"), .next (oneDisk "sda"), .back (oneDisk "sdb"), .next (oneDisk "sdb"),
    .confirm true, .launch]

/-- After a replug the wizard passes the raw entry, which is no reported path. -/
theorem replugRun_not_launchesConfirmed :
    ¬ ∀ events : List Event, Along step LaunchesConfirmed .start events := by
  intro every
  obtain ⟨_, _, _, _, _, launch, _⟩ := every replugRun
  obtain ⟨shown, accepted, _, reported⟩ := launch _ rfl rfl
  have drive_eq : shown.drive = "/dev/sda (10G) - QEMU" := by
    rw [← Option.some.inj accepted]
    rfl
  obtain ⟨entry, listed, found⟩ := reported
  have entry_eq : entry = "/dev/sdb (10G) - QEMU" := List.mem_singleton.mp listed
  rw [entry_eq, drive_eq] at found
  have path_eq : some "/dev/sdb" = some "/dev/sda (10G) - QEMU" := found
  exact absurd path_eq (by decide)

end AqjOs.Wizard
