import AqjOs.Transition.Run

/-!
# The shutdown protocol of runit and the AQJ stage scripts

Requests travel from `runit-init` and the `ctrlaltdel` script to runit, and
from there to the stage 3 script, through two files of a persistent root file
system: `/etc/runit/stopit` and `/etc/runit/reboot`.  runit and `runit-init`
look only at the owner's execute bit of these files; the stage 3 script also
looks at their existence.  One event is handled to its end before the next.
-/

namespace AqjOs.Runit

open AqjOs.Transition

/-- A flag file; of its mode only the owner's execute bit is ever read. -/
inductive Flag
  | absent
  | present (ownerX : Bool)
  deriving DecidableEq, Repr

namespace Flag

/-- `open_trunc` and `touch` on a writable file system: a new file gets mode
0644, an existing one keeps its mode. -/
def create : Flag → Flag
  | absent => present false
  | present ownerX => present ownerX

/-- `chmod` to mode 0100 or 0; it fails on a missing file. -/
def chmod (ownerX : Bool) : Flag → Flag
  | absent => absent
  | present _ => present ownerX

/-- `(stat(FLAG, &s) != -1) && (s.st_mode & S_IXUSR)`, and `[ -x FLAG ]` for root. -/
def executable : Flag → Bool
  | absent => false
  | present ownerX => ownerX

/-- `[ -f FLAG ]`. -/
def exists? : Flag → Bool
  | absent => false
  | present _ => true

@[simp]
theorem exists?_create (flag : Flag) : flag.create.exists? = true := by
  cases flag <;> rfl

@[simp]
theorem exists?_chmod (ownerX : Bool) (flag : Flag) :
    (flag.chmod ownerX).exists? = flag.exists? := by
  cases flag <;> rfl

end Flag

/-- The requests that can end stage 2. -/
inductive Request
  | init0
  | init6
  | ctrlAltDel
  deriving DecidableEq, Repr

/-- `init 6` and Ctrl+Alt+Del ask for a reboot, `init 0` for a power-off. -/
def Request.asksReboot : Request → Bool
  | .init0 => false
  | .init6 => true
  | .ctrlAltDel => true

/-- The stage whose child runit is waiting for; `off` outside a boot. -/
inductive Stage
  | off
  | one
  | two
  | three
  deriving DecidableEq, Repr

/-- How the child of a stage ends. -/
inductive WaitStatus
  | crashed
  | exitCode (code : Nat)
  deriving DecidableEq, Repr

/-- The two flag files, the root file system and the stage loop.  `leftBy` is
the request on which runit left stage 2 in the current boot. -/
structure System where
  reboot : Flag
  stopit : Flag
  writable : Bool
  stage : Stage
  svInstalled : Bool
  servicesDown : Bool
  leftBy : Option Request
  deriving DecidableEq, Repr

/-- A machine that is switched off, with whatever flags its disk holds. -/
def System.poweredOff (reboot stopit : Flag) (svInstalled : Bool) : System :=
  { reboot, stopit, writable := false, stage := .off, svInstalled,
    servicesDown := false, leftBy := none }

/-- `runit_halt` of `runit-init`.  On a read-only root `open_trunc` fails and
the program dies before it signals runit. -/
def runitHalt (system : System) : Option System :=
  if system.writable then
    some { system with
      stopit := system.stopit.create.chmod true
      reboot := system.reboot.chmod false }
  else
    none

/-- `runit_reboot` of `runit-init`. -/
def runitReboot (system : System) : Option System :=
  if system.writable then
    some { system with
      stopit := system.stopit.create.chmod true
      reboot := system.reboot.create.chmod true }
  else
    none

/-- The AQJ `ctrlaltdel` script.  It has no `set -e`: a failing `touch` does
not keep it from shutting the services down. -/
def ctrlaltdel (system : System) : System :=
  { system with
    reboot := if system.writable then system.reboot.create else system.reboot
    servicesDown := system.servicesDown || system.svInstalled }

/-- runit's reaction to a pending SIGCONT in stage 2: the stage is left only
when `stopit` carries the owner's execute bit, which is then reset. -/
def handleCont (request : Request) (system : System) : System :=
  if system.stopit.executable then
    { system with
      stopit := if system.writable then system.stopit.chmod false else system.stopit
      stage := .three
      leftBy := some request }
  else
    system

/-- A request as runit's signal handling and the two programs treat it in the
current stage.  Signals only work in stage 2; the files are written anyway. -/
def handleRequest (request : Request) (system : System) : System :=
  match request, system.stage with
  | _, .off => system
  | .init0, .two => ((runitHalt system).map (handleCont .init0)).getD system
  | .init6, .two => ((runitReboot system).map (handleCont .init6)).getD system
  | .ctrlAltDel, .two => handleCont .ctrlAltDel (ctrlaltdel system)
  | .init0, _ => (runitHalt system).getD system
  | .init6, _ => (runitReboot system).getD system
  | .ctrlAltDel, _ => system

/-- `wait_exitcode`, which is 0 for a child that a signal killed. -/
def WaitStatus.exitcode : WaitStatus → Nat
  | crashed => 0
  | exitCode code => code

/-- runit's reaction to the end of the current stage's child.  Its tests of
`wait_crashed` stand under `wait_exitcode(wstat) != 0`, so that a child killed
by a signal passes for one that exits 0. -/
def childExits (status : WaitStatus) (system : System) : System :=
  match system.stage with
  | .off => system
  | .one =>
      if status.exitcode ≠ 0 ∧ (status = .crashed ∨ status.exitcode = 100) then
        { system with stage := .three, leftBy := none }
      else
        { system with stage := .two }
  | .two =>
      if status.exitcode ≠ 0 ∧ (status = .crashed ∨ status.exitcode = 111) then
        { system with servicesDown := false }
      else
        { system with stage := .three, leftBy := none }
  | .three => { system with stage := .off }

/-- The tests of `wait_crashed` decide nothing. -/
theorem childExits_crashed (system : System) :
    childExits .crashed system = childExits (.exitCode 0) system := by
  cases stage : system.stage <;> simp [childExits, stage, WaitStatus.exitcode]

/-- The two ends of the AQJ stage 3 script. -/
inductive Branch
  | reboot
  | poweroff
  deriving DecidableEq, Repr

/-- The root after `umount -a -r || mount -o remount,ro / || true`. -/
def remountReadOnly (remounted : Bool) (system : System) : System :=
  { system with writable := system.writable && !remounted }

/-- `if [ -x /etc/runit/reboot ] || [ -f /etc/runit/reboot ]`. -/
def stage3Branch (system : System) : Branch :=
  if system.reboot.executable || system.reboot.exists? then .reboot else .poweroff

/-- The end of the AQJ stage 3 script.  `rm -f` fails without consequence when
the root is read-only. -/
def stage3 (remounted : Bool) (system : System) : System :=
  let readied := remountReadOnly remounted system
  match stage3Branch readied with
  | .reboot =>
      { readied with
        reboot := if readied.writable then .absent else readied.reboot
        stage := .off }
  | .poweroff => { readied with stage := .off }

/-- What can happen to the machine.  `boot` is a start from any state, also
after a power cut; `runsStage3` lets the stage 3 script come to its decision. -/
inductive Event
  | boot (writable : Bool)
  | childExits (status : WaitStatus)
  | request (request : Request)
  | runsStage3 (remounted : Bool)
  deriving DecidableEq, Repr

/-- One event of the whole system. -/
def step (system : System) : Event → System
  | .boot writable =>
      { system with writable, stage := .one, servicesDown := false, leftBy := none }
  | .childExits status => childExits status system
  | .request request => handleRequest request system
  | .runsStage3 remounted =>
      if system.stage = .three then stage3 remounted system else system

/-- The stage 3 decision taken at a step answers the request on which runit
left stage 2. -/
def DecisionAgrees (system : System) : Event → Prop
  | .runsStage3 remounted =>
      system.stage = .three → ∀ request, system.leftBy = some request →
        (stage3Branch (remountReadOnly remounted system) = .reboot ↔
          request.asksReboot = true)
  | _ => True

/-- The stage 3 test is a test of existence: its first disjunct decides nothing. -/
theorem stage3Branch_eq_reboot_iff (system : System) :
    stage3Branch system = .reboot ↔ system.reboot.exists? = true := by
  cases flag : system.reboot <;>
    simp [stage3Branch, flag, Flag.executable, Flag.exists?]

end AqjOs.Runit
