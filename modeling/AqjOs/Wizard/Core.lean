import AqjOs.Installer.Arguments
import AqjOs.Wizard.Disks

/-!
# The pages of the graphical installer

The wizard is a state machine whose events are clicks, selections and edits on
the page in front, the answer to the confirmation dialogue, and the installation
thread.  Every visit of the disk page, forward or back, runs
`get_available_disks`; what `lsblk` answers there is part of the event.  Widgets
of a page that is not in front receive no events.
-/

namespace AqjOs.Wizard

/-- The frames of the application. -/
inductive Page
  | welcome
  | disk
  | config
  | install
  deriving DecidableEq, Repr

/-- The fields of the configuration page. -/
structure Form where
  hostname : String
  username : String
  password : String
  timezone : String
  deriving DecidableEq, Repr

/-- The values the fields start with. -/
def Form.default : Form where
  hostname := "aqj-os"
  username := "aqj"
  password := "aqj123"
  timezone := "Asia/Jakarta"

/-- What the confirmation dialogue shows. -/
structure Confirmation where
  drive : String
  hostname : String
  username : String
  timezone : String
  deriving DecidableEq, Repr

/-- How far the installation thread is. -/
inductive Thread
  | idle
  | started
  | launched (command : List String)
  | finished (code : Nat)
  deriving DecidableEq, Repr

/-- The state of the application.  `scan` is the result of the latest
`get_available_disks`; `accepted` is the dialogue that the user has accepted. -/
structure State where
  page : Page
  scan : Scan
  selected : String
  form : Form
  accepted : Option Confirmation
  thread : Thread
  rebootEnabled : Bool

/-- The application when its main loop starts. -/
def State.start : State where
  page := .welcome
  scan := .empty
  selected := ""
  form := .default
  accepted := none
  thread := .idle
  rebootEnabled := false

/-- Clicks, selections, edits, answers and what the thread does. -/
inductive Event
  | next (probe : Probe)
  | back (probe : Probe)
  | select (index : Nat)
  | edit (form : Form)
  | confirm (yes : Bool)
  | launch
  | exits (code : Nat)
  deriving DecidableEq, Repr

/-- `disks_info.get(disk_str, disk_str)`. -/
def targetDevice (scan : Scan) (selected : String) : String :=
  (scan.disksInfo.lookup selected).getD selected

/-- `DiskStep.on_show`: the selection is kept if there is one. -/
def showDisk (probe : Probe) (state : State) : State :=
  let scan := getAvailableDisks probe
  { state with
    page := .disk
    scan := scan
    selected :=
      if state.selected = "" then scan.disks.headD "" else state.selected }

/-- The button to the next page; on the disk page it is `DiskStep.next_step`. -/
def goNext (probe : Probe) (state : State) : State :=
  match state.page with
  | .welcome => showDisk probe state
  | .disk => if state.selected = "" then state else { state with page := .config }
  | .config => state
  | .install => state

/-- The button to the previous page. -/
def goBack (probe : Probe) (state : State) : State :=
  match state.page with
  | .welcome => state
  | .disk => { state with page := .welcome }
  | .config => showDisk probe state
  | .install => state

/-- Choose an entry of the selection box. -/
def select (index : Nat) (state : State) : State :=
  match state.page, state.scan.disks[index]? with
  | .disk, some entry => { state with selected := entry }
  | _, _ => state

/-- The dialogue of `ConfigStep.confirm_install`. -/
def confirmation (state : State) : Confirmation where
  drive := targetDevice state.scan state.selected
  hostname := state.form.hostname
  username := state.form.username
  timezone := state.form.timezone

/-- `ConfigStep.confirm_install` and, when the user accepts, `InstallStep.on_show`. -/
def confirmInstall (yes : Bool) (state : State) : State :=
  if state.page = .config ∧ yes = true then
    { state with page := .install, accepted := some (confirmation state), thread := .started }
  else
    state

/-- The device that `InstallStep.run_installation` passes with `--disk`. -/
def passedDisk (state : State) : String :=
  targetDevice state.scan state.selected

/-- `InstallStep.run_installation` up to the start of `aqj-install`. -/
def runInstallation (state : State) : State :=
  if state.thread = .started then
    { state with
      thread := .launched (Installer.installCommand (passedDisk state) state.form.hostname
        state.form.username state.form.password) }
  else
    state

/-- `aqj-install` ends; its exit status alone decides over the reboot button. -/
def installerExits (code : Nat) (state : State) : State :=
  match state.thread with
  | .launched _ => { state with thread := .finished code, rebootEnabled := code = 0 }
  | _ => state

/-- One event. -/
def step (state : State) : Event → State
  | .next probe => goNext probe state
  | .back probe => goBack probe state
  | .select index => select index state
  | .edit form => if state.page = .config then { state with form } else state
  | .confirm yes => confirmInstall yes state
  | .launch => runInstallation state
  | .exits code => installerExits code state

end AqjOs.Wizard
