import AqjOs.Installer.Arguments
import AqjOs.Installer.Devices
import AqjOs.Shell.Script

/-!
# The installation script `installer.sh`

The script is embedded command by command over a state that holds its shell
variables, its standard input and the part of the machine it can change.  The
outcome of every external command and redirection is a free Boolean of the
environment, and so is the presence of the tools looked up with `command -v`;
only the `id -u` of the root check is not free, since it prints the effective
user id that the environment gives.  Output to the terminal has no effect and is
left out; so are the listings that `lsblk` and `fdisk` print.
-/

namespace AqjOs.Installer

open AqjOs.Shell

/-- The tools whose presence the script tests. -/
inductive Tool
  | lsblk
  | sfdisk
  | limine
  | chroot
  deriving DecidableEq, Repr

/-- The external commands and redirections of the script, by place. -/
inductive Call
  | lsblk
  | confirmPrompt
  | mkdirMountDir
  | sfdiskLabel
  | sfdiskPartition
  | grep
  | mkfs
  | mount
  | mkdirTree
  | copyBoot
  | limine
  | writeFstab
  | writeHostname
  | id
  | useradd
  | chpasswdUser
  | chpasswdRoot
  | umount
  deriving DecidableEq, Repr

/-- An account of the target system. -/
structure Account where
  name : String
  password : Option String
  deriving DecidableEq, Repr

/-- The live system that is copied: its directories directly below `/`, its
accounts and its time zone. -/
structure Live where
  directories : List String
  accounts : List Account
  timezone : String
  deriving DecidableEq, Repr

/-- Everything that the script meets and does not decide itself.  `partitions`
are the partitions of the target that the kernel sees after each `sfdisk`;
`copies` says which operands `cp -a` copies completely, and the fragment is what
an incomplete copy of `/etc` brings along.  `knowsUid` says which numbers are the
user id of an account of the target, and `applies` which records `chpasswd` has
applied when it fails. -/
structure Environment where
  uid : Nat
  has : Tool → Bool
  ok : Call → Bool
  partitions : Call → List Nat
  copies : String → Bool
  live : Live
  fragmentAccounts : List Account
  fragmentTimezone : Option String
  knowsUid : String → Bool
  applies : Call → Nat → Bool

/-- The file system on `ROOT_PART`. -/
structure Target where
  copied : List String
  bootCopied : Bool
  fstab : Option String
  hostname : Option String
  accounts : List Account
  timezone : Option String
  deriving DecidableEq, Repr

/-- A freshly made file system. -/
def Target.empty : Target where
  copied := []
  bootCopied := false
  fstab := none
  hostname := none
  accounts := []
  timezone := none

/-- The programs that are handed a block device. -/
inductive DeviceTool
  | sfdisk
  | mkfs
  | mount
  | limine
  deriving DecidableEq, Repr

/-- A device name handed to a program, with what it names at that moment. -/
structure Handover where
  tool : DeviceTool
  device : String
  node : Option DeviceNode
  deriving DecidableEq, Repr

/-- An entry of the mount table. -/
structure Mount where
  source : String
  directory : String
  deriving DecidableEq, Repr

/-- What the script can change outside its own process.  The mount table has
its newest entry first; `handed` records the device names in the order in which
they are handed out, newest first. -/
structure Machine where
  devices : DeviceTable
  mounts : List Mount
  directories : List String
  handed : List Handover
  repartitioned : List String
  formatted : List String
  bootCode : List String
  target : Target

/-- Shell variables, standard input and machine. -/
structure State where
  options : Options
  confirm : String
  rootPart : String
  stdin : List String
  machine : Machine

/-- A machine on which the script has not done anything yet. -/
def Machine.untouched (devices : DeviceTable) (mounts : List Mount) : Machine where
  devices := devices
  mounts := mounts
  directories := []
  handed := []
  repartitioned := []
  formatted := []
  bootCode := []
  target := .empty

/-- The state in which the shell starts. -/
def State.start (stdin : List String) (machine : Machine) : State where
  options := .default
  confirm := ""
  rootPart := ""
  stdin := stdin
  machine := machine

/-- `MOUNT_DIR`. -/
def mountDir : String :=
  "/mnt/aqj-target"

/-! ## Arguments and gates -/

/-- The argument loop as one command: an unset `$2` ends the script. -/
def parse (argv : List String) : Command State :=
  .of (fun state => (parseArguments state.options argv).isSome)
    fun state => { state with options := (parseArguments state.options argv).getD state.options }

/-- The white space that `read` strips at both ends of a line. -/
def isIfs (character : Char) : Bool :=
  character = ' ' || character = '\t' || character = '\n'

/-- A line as `read -r` stores it in one variable. -/
def readValue (line : String) : String :=
  String.ofList ((line.toList.dropWhile isIfs).reverse.dropWhile isIfs).reverse

/-- `read -r VAR`; it fails at the end of the input. -/
def readLine (store : String → State → State) : Command State :=
  .of (fun state => !state.stdin.isEmpty) fun state =>
    match state.stdin with
    | [] => store "" state
    | line :: rest => store (readValue line) { state with stdin := rest }

/-- `[ -z "${TARGET_DISK}" ] || [ ! -b "${TARGET_DISK}" ]`. -/
def targetInvalid (state : State) : Bool :=
  state.options.targetDisk = "" || !state.machine.devices.isBlock state.options.targetDisk

/-- The dialogue of the interactive mode. -/
def interactive (env : Environment) : Script State :=
  .block [
    .when (fun _ => env.has .lsblk) (.run (.attempt (env.ok .lsblk) id)),
    .run (readLine fun disk state =>
      { state with options := { state.options with targetDisk := disk } }),
    .when targetInvalid (.exit 1),
    .run (.attempt (env.ok .confirmPrompt) id),
    .run (readLine fun answer state => { state with confirm := answer }),
    .when (fun state => state.confirm ≠ "y" ∧ state.confirm ≠ "Y") (.exit 0)]

/-- Everything before the first command that changes the machine. -/
def gates (env : Environment) (argv : List String) : Script State :=
  .block [
    .run (parse argv),
    .when (fun _ => env.uid ≠ 0) (.exit 1),
    .ite (fun state => !state.options.nonInteractive) (interactive env)
      (.when targetInvalid (.exit 1))]

/-! ## Partitioning, formatting and mounting -/

/-- Change the machine only. -/
def onMachine (change : Machine → Machine) (state : State) : State :=
  { state with machine := change state.machine }

/-- Hand a device name to a program. -/
def Machine.hand (tool : DeviceTool) (device : String) (machine : Machine) : Machine :=
  { machine with handed := ⟨tool, device, machine.devices.node device⟩ :: machine.handed }

def mkdirMountDir (env : Environment) : Command State :=
  .attempt (env.ok .mkdirMountDir) (onMachine fun machine =>
    { machine with directories := mountDir :: machine.directories })

/-- A call of `sfdisk` on the target.  Whatever its status, it may have changed
the partitions that the kernel sees; `done` records a successful one. -/
def sfdisk (env : Environment) (call : Call) (done : String → Machine → Machine) :
    Command State :=
  .of (fun _ => env.ok call) fun state =>
    onMachine (fun machine =>
      let written := { machine.hand .sfdisk state.options.targetDisk with
        devices := machine.devices.repartition state.options.targetDisk (env.partitions call) }
      if env.ok call then done state.options.targetDisk written else written) state

/-- `echo "label: dos" | sfdisk "${TARGET_DISK}"`. -/
def sfdiskLabel (env : Environment) : Command State :=
  sfdisk env .sfdiskLabel fun _ machine => machine

/-- `echo ",,83,*" | sfdisk "${TARGET_DISK}"`, which completes the new table. -/
def sfdiskPartition (env : Environment) : Command State :=
  sfdisk env .sfdiskPartition fun disk machine =>
    { machine with repartitioned := disk :: machine.repartitioned }

/-- The assignment of `ROOT_PART`. -/
def setRootPart (env : Environment) : Command State :=
  .attempt true fun state =>
    { state with rootPart := rootPartition (env.ok .grep) state.options.targetDisk }

/-- `mkfs.ext4 -F "${ROOT_PART}"`. -/
def mkfs (env : Environment) : Command State :=
  .of (fun _ => env.ok .mkfs) fun state =>
    onMachine (fun machine =>
      let handed := machine.hand .mkfs state.rootPart
      if env.ok .mkfs then
        { handed with formatted := state.rootPart :: handed.formatted, target := .empty }
      else
        handed) state

/-- `mount "${ROOT_PART}" "${MOUNT_DIR}"`. -/
def mount (env : Environment) : Command State :=
  .of (fun _ => env.ok .mount) fun state =>
    onMachine (fun machine =>
      let handed := machine.hand .mount state.rootPart
      if env.ok .mount then
        { handed with mounts := ⟨state.rootPart, mountDir⟩ :: handed.mounts }
      else
        handed) state

/-! ## Copying and configuring -/

/-- Change the target file system only. -/
def onTarget (change : Target → Target) : State → State :=
  onMachine fun machine => { machine with target := change machine.target }

/-- The operands of the copy step with `/lib*` expanded, without their slash. -/
def copyOperands (live : Live) : List String :=
  ["bin", "sbin", "usr"] ++
    live.directories.filter (fun directory => "lib".toList.isPrefixOf directory.toList) ++
    ["etc", "var", "opt", "root"]

/-- The operands that exist and that `cp -a` copies completely. -/
def copiedOperands (env : Environment) : List String :=
  (copyOperands env.live).filter fun directory =>
    decide (directory ∈ env.live.directories) && env.copies directory

/-- `cp -a /bin /sbin /usr /lib* /etc /var /opt /root "${MOUNT_DIR}/"`.  The
accounts and the time zone of the live system arrive with `/etc`. -/
def copySystem (env : Environment) : Command State :=
  .of (fun _ => (copyOperands env.live).all fun directory => directory ∈ copiedOperands env)
    (onTarget fun target =>
      { target with
        copied := copiedOperands env
        accounts :=
          if "etc" ∈ copiedOperands env then env.live.accounts else env.fragmentAccounts
        timezone :=
          if "etc" ∈ copiedOperands env then some env.live.timezone
          else env.fragmentTimezone })

def mkdirTree (env : Environment) : Command State :=
  .attempt (env.ok .mkdirTree) id

def copyBoot (env : Environment) : Command State :=
  .attempt (env.ok .copyBoot) (onTarget fun target => { target with bootCopied := true })

/-- `limine bios-install "${TARGET_DISK}"`. -/
def biosInstall (env : Environment) : Command State :=
  .of (fun _ => env.ok .limine) fun state =>
    onMachine (fun machine =>
      let handed := machine.hand .limine state.options.targetDisk
      if env.ok .limine then
        { handed with bootCode := state.options.targetDisk :: handed.bootCode }
      else
        handed) state

/-- The here-document written to `/etc/fstab`. -/
def fstabText (rootPart : String) : String :=
  "# /etc/fstab: Static file system information for AQJ OS\n" ++
  "# <file system>             <mount point>   <type>      <options>       <dump>  <pass>\n" ++
  rootPart ++ "                /               ext4        errors=remount-ro 0       1\n" ++
  "proc                        /proc           proc        nosuid,noexec,nodev 0     0\n" ++
  "sysfs                       /sys            sysfs       nosuid,noexec,nodev 0     0\n" ++
  "devtmpfs                    /dev            devtmpfs    mode=0755,nosuid    0     0\n"

def writeFstab (env : Environment) : Command State :=
  .attempt (env.ok .writeFstab) fun state =>
    onTarget (fun target => { target with fstab := some (fstabText state.rootPart) }) state

/-- A word that the shell's `echo` takes as its options. -/
def isEchoOption (word : String) : Bool :=
  match word.toList with
  | '-' :: letters =>
      !letters.isEmpty && letters.all fun letter => letter = 'n' || letter = 'e' || letter = 'E'
  | _ => false

/-- The output of `echo "WORD"`. -/
def echo (word : String) : String :=
  if isEchoOption word then
    if 'n' ∈ word.toList then "" else "\n"
  else
    word ++ "\n"

def writeHostname (env : Environment) : Command State :=
  .attempt (env.ok .writeHostname) fun state =>
    onTarget (fun target =>
      { target with hostname := some (echo state.options.newHostname) }) state

/-! ## Accounts -/

/-- Whether an account table has an account of a name. -/
def hasAccount (accounts : List Account) (name : String) : Bool :=
  accounts.any fun account => account.name = name

/-- The lines of a text that ends with a newline. -/
def textLines : List Char → List (List Char)
  | [] => []
  | character :: rest =>
      if character = '\n' then [] :: textLines rest
      else
        match textLines rest with
        | [] => [[character]]
        | line :: lines => (character :: line) :: lines

/-- A `chpasswd` record, split at the first colon; `none` without a colon. -/
def chpasswdRecord (line : List Char) : Option (String × String) :=
  match line.dropWhile (· ≠ ':') with
  | [] => none
  | _ :: password => some (String.ofList (line.takeWhile (· ≠ ':')), String.ofList password)

/-- The records that `chpasswd` reads from `echo "user:password"`. -/
def chpasswdRecords (user password : String) : List (Option (String × String)) :=
  (textLines (user ++ ":" ++ password ++ "\n").toList).map chpasswdRecord

/-- `chpasswd` accepts its input when every line is a record of an account. -/
def chpasswdAccepts (accounts : List Account) (user password : String) : Bool :=
  (chpasswdRecords user password).all fun record =>
    record.any fun (name, _) => hasAccount accounts name

/-- Set the password of one account. -/
def setPassword (accounts : List Account) (name password : String) : List Account :=
  accounts.map fun account =>
    if account.name = name then { account with password := some password } else account

/-- Apply the records in order. -/
def applyRecords (accounts : List Account) (records : List (Option (String × String))) :
    List Account :=
  records.foldl (fun accounts record =>
    match record with
    | some (name, password) => setPassword accounts name password
    | none => accounts) accounts

/-- A word that `id` and `useradd` take as an option. -/
def isOption (word : String) : Bool :=
  word.toList.head? = some '-'

/-- A word of digits, with or without a plus sign, that `id` takes as the user id
of an account. -/
def isUserId (env : Environment) (word : String) : Bool :=
  let digits :=
    match word.toList with
    | '+' :: rest => rest
    | letters => letters
  !digits.isEmpty && digits.all Char.isDigit && env.knowsUid word

/-- A name that an account can have: a field of a line, and not an empty one. -/
def isAccountName (name : String) : Bool :=
  !name.toList.isEmpty && name.toList.all fun character => character ≠ ':' && character ≠ '\n'

/-- Whether `id -u USER` succeeds inside the target. -/
def idSucceeds (env : Environment) (accounts : List Account) (user : String) : Bool :=
  env.ok .id && (isOption user || hasAccount accounts user || isUserId env user)

/-- Whether `useradd -m -s /bin/bash USER` succeeds inside the target; it refuses
an account that exists and a name that no account can have. -/
def useraddSucceeds (env : Environment) (accounts : List Account) (user : String) : Bool :=
  env.ok .useradd && isAccountName user && !hasAccount accounts user

/-- `id -u USER || useradd -m -s /bin/bash USER` inside the target. -/
def createUser (env : Environment) : Command State :=
  .of (fun state =>
      idSucceeds env state.machine.target.accounts state.options.newUsername ||
        useraddSucceeds env state.machine.target.accounts state.options.newUsername)
    fun state => onTarget (fun target =>
      if !idSucceeds env target.accounts state.options.newUsername &&
          useraddSucceeds env target.accounts state.options.newUsername &&
          !isOption state.options.newUsername then
        { target with accounts := ⟨state.options.newUsername, none⟩ :: target.accounts }
      else target) state

/-- The records that `chpasswd` applies: all of them if it succeeds, else those
that it gets to and does not refuse. -/
def appliedRecords (env : Environment) (call : Call) (accounts : List Account)
    (user password : String) : List (Option (String × String)) :=
  if env.ok call && chpasswdAccepts accounts user password then chpasswdRecords user password
  else
    ((chpasswdRecords user password).zipIdx.filter fun record => env.applies call record.2).map
      Prod.fst

/-- `echo "USER:${NEW_PASSWORD}" | chroot "${MOUNT_DIR}" chpasswd`. -/
def chpasswd (env : Environment) (call : Call) (user : State → String) : Command State :=
  .of (fun state => env.ok call &&
      chpasswdAccepts state.machine.target.accounts (user state) state.options.newPassword)
    fun state => onTarget (fun target =>
      { target with
        accounts := applyRecords target.accounts
          (appliedRecords env call target.accounts (user state) state.options.newPassword) }) state

def chpasswdUser (env : Environment) : Command State :=
  chpasswd env .chpasswdUser fun state => state.options.newUsername

def chpasswdRoot (env : Environment) : Command State :=
  chpasswd env .chpasswdRoot fun _ => "root"

/-- The account and the two passwords, all under `|| true`. -/
def setAccounts (env : Environment) : Script State :=
  .block [.tolerate (createUser env), .tolerate (chpasswdUser env), .tolerate (chpasswdRoot env)]

/-- `umount "${MOUNT_DIR}"` takes off the newest mount on the directory. -/
def umount (env : Environment) : Command State :=
  .attempt (env.ok .umount) (onMachine fun machine =>
    { machine with mounts := machine.mounts.eraseP (·.directory = mountDir) })

/-! ## The whole script -/

/-- Steps 2/6 and 3/6 up to and including the mount. -/
def prepare (env : Environment) : Script State :=
  .block [
    .run (mkdirMountDir env),
    .when (fun _ => env.has .sfdisk)
      (.block [.run (sfdiskLabel env), .run (sfdiskPartition env)]),
    .run (setRootPart env),
    .run (mkfs env),
    .run (mount env)]

/-- The rest of step 4/6 to step 6/6. -/
def populate (env : Environment) : Script State :=
  .block [
    .tolerate (copySystem env),
    .run (mkdirTree env),
    .when (fun _ => decide ("boot" ∈ env.live.directories)) (.tolerate (copyBoot env)),
    .when (fun _ => env.has .limine) (.tolerate (biosInstall env)),
    .run (writeFstab env),
    .run (writeHostname env),
    .when (fun _ => env.has .chroot) (setAccounts env),
    .tolerate (umount env)]

/-- `installer.sh`. -/
def installer (env : Environment) (argv : List String) : Script State :=
  .seq (gates env argv) (.seq (prepare env) (populate env))

end AqjOs.Installer
