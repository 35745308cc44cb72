import AqjOs.Installer.Mounts

/-!
# What a successful installation guarantees

The wizard trusts the exit status of `aqj-install`.  Status 0 means that every
plain command has succeeded; the commands behind `command -v` and those under
`|| true` are best effort.  The amended contract says which parts of a complete
installation follow from status 0 alone and which also need the success of a
guarded command.
-/

namespace AqjOs.Installer

open AqjOs.Shell

/-! ## Accounts and passwords -/

/-- The password of the first account of a name. -/
def passwordOf (accounts : List Account) (name : String) : Option String :=
  (accounts.find? fun account => account.name = name).bind (·.password)

@[simp]
theorem hasAccount_cons_self (name : String) (password : Option String)
    (accounts : List Account) : hasAccount (⟨name, password⟩ :: accounts) name = true := by
  simp [hasAccount]

@[simp]
theorem hasAccount_setPassword (accounts : List Account) (name password other : String) :
    hasAccount (setPassword accounts name password) other = hasAccount accounts other := by
  induction accounts with
  | nil => rfl
  | cons account accounts inductionHypothesis =>
      simp only [hasAccount, setPassword, List.map_cons, List.any_cons] at inductionHypothesis ⊢
      rw [inductionHypothesis]
      split <;> rfl

theorem hasAccount_applyRecords (accounts : List Account)
    (records : List (Option (String × String))) (other : String) :
    hasAccount (applyRecords accounts records) other = hasAccount accounts other := by
  induction records generalizing accounts with
  | nil => rfl
  | cons record records inductionHypothesis =>
      cases record with
      | none => exact inductionHypothesis accounts
      | some record =>
          obtain ⟨name, password⟩ := record
          have rest := inductionHypothesis (setPassword accounts name password)
          rw [hasAccount_setPassword] at rest
          exact rest

@[simp]
theorem applyRecords_nil (accounts : List Account) : applyRecords accounts [] = accounts :=
  rfl

@[simp]
theorem applyRecords_cons_some (accounts : List Account) (name password : String)
    (records : List (Option (String × String))) :
    applyRecords accounts (some (name, password) :: records) =
      applyRecords (setPassword accounts name password) records :=
  rfl

@[simp]
theorem applyRecords_cons_none (accounts : List Account)
    (records : List (Option (String × String))) :
    applyRecords accounts (none :: records) = applyRecords accounts records :=
  rfl

theorem passwordOf_setPassword_self {accounts : List Account} {name : String}
    (present : hasAccount accounts name = true) (password : String) :
    passwordOf (setPassword accounts name password) name = some password := by
  induction accounts with
  | nil => contradiction
  | cons account accounts inductionHypothesis =>
      by_cases same : account.name = name
      · simp [passwordOf, setPassword, same]
      · have later : hasAccount accounts name = true := by
          simpa [hasAccount, same] using present
        simpa [passwordOf, setPassword, same] using inductionHypothesis later

theorem passwordOf_setPassword_of_ne {name other : String} (different : other ≠ name)
    (accounts : List Account) (password : String) :
    passwordOf (setPassword accounts name password) other = passwordOf accounts other := by
  induction accounts with
  | nil => rfl
  | cons account accounts inductionHypothesis =>
      simp only [passwordOf, setPassword, List.map_cons] at inductionHypothesis ⊢
      by_cases same : account.name = name
      · have skipped : account.name ≠ other := fun equal => different (equal.symm.trans same)
        simpa [same, different.symm, skipped] using inductionHypothesis
      · by_cases found : account.name = other
        · rw [if_neg same]
          simp [found]
        · simpa [same, found] using inductionHypothesis

/-- A line without a newline is read back as one line. -/
theorem textLines_line {line : List Char} (plain : '\n' ∉ line) :
    textLines (line ++ ['\n']) = [line] := by
  induction line with
  | nil => rfl
  | cons character line inductionHypothesis =>
      rw [List.mem_cons, not_or] at plain
      have rest := inductionHypothesis plain.2
      simp [textLines, Ne.symm plain.1, rest]

/-- The record `user:password` is one line whose first colon ends the user. -/
structure PlainRecord (user password : String) : Prop where
  colon : ':' ∉ user.toList
  user : '\n' ∉ user.toList
  password : '\n' ∉ password.toList

theorem chpasswdRecords_of_plain {user password : String} (plain : PlainRecord user password) :
    chpasswdRecords user password = [some (user, password)] := by
  have text : (user ++ ":" ++ password ++ "\n").toList =
      (user.toList ++ ':' :: password.toList) ++ ['\n'] := by simp
  have oneLine : '\n' ∉ user.toList ++ ':' :: password.toList := by
    simp [plain.user, plain.password]
  have inUser : ∀ character ∈ user.toList, decide (character ≠ ':') = true := by
    intro character member
    exact decide_eq_true fun equal => plain.colon (equal ▸ member)
  rw [chpasswdRecords, text, textLines_line oneLine, List.map_singleton, chpasswdRecord,
    List.dropWhile_append_of_pos inUser, List.takeWhile_append_of_pos inUser]
  simp

/-- `chpasswd` neither adds nor removes an account. -/
theorem hasAccount_chpasswd (env : Environment) (call : Call) (user : State → String)
    (state : State) (name : String) :
    hasAccount (chpasswd env call user state).2.machine.target.accounts name =
      hasAccount state.machine.target.accounts name := by
  exact hasAccount_applyRecords _ _ _

/-- Of one record `chpasswd` applies all or nothing. -/
theorem appliedRecords_singleton (env : Environment) (call : Call) (accounts : List Account)
    {user password : String} {record : Option (String × String)}
    (one : chpasswdRecords user password = [record]) :
    appliedRecords env call accounts user password = [] ∨
      appliedRecords env call accounts user password = [record] := by
  rw [appliedRecords, one]
  split
  · exact Or.inr rfl
  · cases applied : env.applies call 0 with
    | false => exact Or.inl (by simp [applied])
    | true => exact Or.inr (by simp [applied])

/-- On a plain record `chpasswd` either does nothing or sets one password. -/
theorem chpasswd_accounts_cases (env : Environment) (call : Call) (user : State → String)
    (state : State) (plain : PlainRecord (user state) state.options.newPassword) :
    (chpasswd env call user state).2.machine.target.accounts = state.machine.target.accounts ∨
      (chpasswd env call user state).2.machine.target.accounts =
        setPassword state.machine.target.accounts (user state) state.options.newPassword := by
  simp only [chpasswd, Command.of, onTarget, onMachine]
  rcases appliedRecords_singleton env call state.machine.target.accounts
    (chpasswdRecords_of_plain plain) with nothing | all
  · left
    rw [nothing, applyRecords_nil]
  · right
    rw [all, applyRecords_cons_some, applyRecords_nil]

theorem passwordOf_chpasswd_self {env : Environment} {call : Call} {user : State → String}
    {state : State} (works : env.ok call = true)
    (plain : PlainRecord (user state) state.options.newPassword)
    (present : hasAccount state.machine.target.accounts (user state) = true) :
    passwordOf (chpasswd env call user state).2.machine.target.accounts (user state) =
      some state.options.newPassword := by
  have accepts : chpasswdAccepts state.machine.target.accounts (user state)
      state.options.newPassword = true := by
    simp [chpasswdAccepts, chpasswdRecords_of_plain plain, present]
  have applied : appliedRecords env call state.machine.target.accounts (user state)
      state.options.newPassword = [some (user state, state.options.newPassword)] := by
    rw [appliedRecords, works, accepts, Bool.and_self, if_pos rfl, chpasswdRecords_of_plain plain]
  simp only [chpasswd, Command.of, onTarget, onMachine, applied, applyRecords_cons_some,
    applyRecords_nil]
  exact passwordOf_setPassword_self present state.options.newPassword

/-- A password already set to the new one stays so through a later record. -/
theorem passwordOf_chpasswd_of_eq {env : Environment} {call : Call} {user : State → String}
    {state : State} {name : String} (plain : PlainRecord (user state) state.options.newPassword)
    (present : hasAccount state.machine.target.accounts name = true)
    (already : passwordOf state.machine.target.accounts name = some state.options.newPassword) :
    passwordOf (chpasswd env call user state).2.machine.target.accounts name =
      some state.options.newPassword := by
  rcases chpasswd_accounts_cases env call user state plain with same | set
  · rw [same, already]
  · rw [set]
    by_cases equal : name = user state
    · subst equal
      exact passwordOf_setPassword_self present state.options.newPassword
    · rw [passwordOf_setPassword_of_ne equal, already]

/-! ## The settings and what they ask for -/

/-- The settings that the wizard's confirmation dialogue and its fields hold. -/
structure Settings where
  disk : String
  hostname : String
  username : String
  password : String
  timezone : String
  deriving DecidableEq, Repr

/-- The command line of `InstallStep.run_installation`; the time zone is not on
it. -/
def Settings.command (settings : Settings) : List String :=
  installCommand settings.disk settings.hostname settings.username settings.password

/-- The variables of the installer after its argument loop. -/
def Settings.options (settings : Settings) : Options :=
  ⟨true, settings.disk, settings.hostname, settings.username, settings.password⟩

theorem Settings.parsed (settings : Settings) :
    parseArguments .default settings.command = some settings.options :=
  parseArguments_installCommand _ _ _ _

/-- `ROOT_PART` in a run for the settings. -/
def Settings.rootPart (settings : Settings) (env : Environment) : String :=
  rootPartition (env.ok .grep) settings.disk

/-- The installation that the wizard announces. -/
structure Complete (env : Environment) (settings : Settings) (machine : Machine) : Prop where
  repartitioned : settings.disk ∈ machine.repartitioned
  formatted : settings.rootPart env ∈ machine.formatted
  copied : ∀ directory ∈ copyOperands env.live, directory ∈ env.live.directories →
    directory ∈ machine.target.copied
  boot : "boot" ∈ env.live.directories → machine.target.bootCopied = true
  bootCode : settings.disk ∈ machine.bootCode
  fstab : machine.target.fstab = some (fstabText (settings.rootPart env))
  hostname : machine.target.hostname = some (settings.hostname ++ "\n")
  account : hasAccount machine.target.accounts settings.username = true
  userPassword : passwordOf machine.target.accounts settings.username = some settings.password
  rootPassword : passwordOf machine.target.accounts "root" = some settings.password
  timezone : machine.target.timezone = some settings.timezone

/-- The account of the settings arrives with a complete copy of `/etc`. -/
def CopiedAccount (env : Environment) (settings : Settings) : Prop :=
  "etc" ∈ copiedOperands env ∧ hasAccount env.live.accounts settings.username = true

/-- `useradd` is there, works and takes the name as a name, and `id` does not take
it for the number of another account. -/
structure CreatesAccount (env : Environment) (settings : Settings) : Prop where
  chroot : env.has .chroot = true
  useradd : env.ok .useradd = true
  valid : isAccountName settings.username = true
  name : isOption settings.username = false
  number : isUserId env settings.username = false

/-- What exit status 0 guarantees: the plain commands have done their work, and
each guarded one has done its work if its tool exists and reports success. -/
structure Installed (env : Environment) (settings : Settings) (machine : Machine) : Prop where
  formatted : settings.rootPart env ∈ machine.formatted
  repartitioned : env.has .sfdisk = true → settings.disk ∈ machine.repartitioned
  copied : ∀ directory ∈ copyOperands env.live, directory ∈ env.live.directories →
    env.copies directory = true → directory ∈ machine.target.copied
  boot : "boot" ∈ env.live.directories → env.ok .copyBoot = true →
    machine.target.bootCopied = true
  bootCode : env.has .limine = true → env.ok .limine = true → settings.disk ∈ machine.bootCode
  fstab : machine.target.fstab = some (fstabText (settings.rootPart env))
  hostname : isEchoOption settings.hostname = false →
    machine.target.hostname = some (settings.hostname ++ "\n")
  account : CopiedAccount env settings ∨ CreatesAccount env settings →
    hasAccount machine.target.accounts settings.username = true
  userPassword : env.has .chroot = true → env.ok .chpasswdUser = true →
    PlainRecord settings.username settings.password →
    hasAccount machine.target.accounts settings.username = true →
    passwordOf machine.target.accounts settings.username = some settings.password
  rootPassword : env.has .chroot = true → env.ok .chpasswdRoot = true →
    '\n' ∉ settings.password.toList →
    hasAccount machine.target.accounts "root" = true →
    passwordOf machine.target.accounts "root" = some settings.password

/-! ## The stages of a successful run -/

/-- The state between the mount and the copy. -/
structure Prepared (env : Environment) (settings : Settings) (state : State) : Prop where
  options : state.options = settings.options
  rootPart : state.rootPart = settings.rootPart env
  formatted : settings.rootPart env ∈ state.machine.formatted
  repartitioned : env.has .sfdisk = true → settings.disk ∈ state.machine.repartitioned

/-- The state after the copy. -/
structure Copied (env : Environment) (settings : Settings) (state : State) : Prop extends
    Prepared env settings state where
  copied : state.machine.target.copied = copiedOperands env
  account : CopiedAccount env settings →
    hasAccount state.machine.target.accounts settings.username = true

/-- The state after the copy of `/boot`. -/
structure BootCopied (env : Environment) (settings : Settings) (state : State) : Prop extends
    Copied env settings state where
  boot : "boot" ∈ env.live.directories → env.ok .copyBoot = true →
    state.machine.target.bootCopied = true

/-- The state after the boot loader. -/
structure Bootable (env : Environment) (settings : Settings) (state : State) : Prop extends
    BootCopied env settings state where
  bootCode : env.has .limine = true → env.ok .limine = true →
    settings.disk ∈ state.machine.bootCode

/-- The state after the two configuration files. -/
structure Configured (env : Environment) (settings : Settings) (state : State) : Prop extends
    Bootable env settings state where
  fstab : state.machine.target.fstab = some (fstabText (settings.rootPart env))
  hostname : state.machine.target.hostname = some (echo settings.hostname)

/-- The state after the account has been created. -/
structure Accounted (env : Environment) (settings : Settings) (state : State) : Prop extends
    Configured env settings state where
  created : CreatesAccount env settings →
    hasAccount state.machine.target.accounts settings.username = true

/-- The state after the password of the account has been set. -/
structure Secured (env : Environment) (settings : Settings) (state : State) : Prop extends
    Accounted env settings state where
  userPassword : env.ok .chpasswdUser = true → PlainRecord settings.username settings.password →
    hasAccount state.machine.target.accounts settings.username = true →
    passwordOf state.machine.target.accounts settings.username = some settings.password

theorem prepare_prepared (env : Environment) (settings : Settings) :
    (prepare env).Triple (fun state => state.options = settings.options)
      (Prepared env settings) (fun _ => True) := by
  have made : (Script.run (mkdirMountDir env)).Triple
      (fun state => state.options = settings.options)
      (fun state => state.options = settings.options) (fun _ => True) := by
    apply (Script.triple_run_same ?_).forget
    intro state options
    exact Command.attempt_snd (fun state : State => state.options = settings.options)
      options options
  have labelled : (Script.run (sfdiskLabel env)).Triple
      (fun state => state.options = settings.options ∧ env.has .sfdisk = true)
      (fun state => state.options = settings.options) (fun _ => True) := by
    apply (Script.triple_run_same ?_).forget
    rintro state ⟨options, _⟩
    exact options
  have partitioned : (Script.run (sfdiskPartition env)).Triple
      (fun state => state.options = settings.options)
      (fun state => state.options = settings.options ∧
        (env.has .sfdisk = true → settings.disk ∈ state.machine.repartitioned))
      (fun _ => True) := by
    intro state options
    rw [sfdiskPartition, sfdisk, Script.exec_run_of]
    by_cases ok : env.ok .sfdiskPartition = true
    · simp only [ok, if_true]
      refine ⟨options, fun _ => List.mem_cons.mpr (Or.inl ?_)⟩
      rw [options]
      rfl
    · simp [ok]
  have rooted : (Script.run (setRootPart env)).Triple
      (fun state => state.options = settings.options ∧
        (env.has .sfdisk = true → settings.disk ∈ state.machine.repartitioned))
      (fun state => (state.options = settings.options ∧
        (env.has .sfdisk = true → settings.disk ∈ state.machine.repartitioned)) ∧
          state.rootPart = settings.rootPart env)
      (fun _ => True) := by
    apply (Script.triple_run_same ?_).forget
    rintro state ⟨options, repartitioned⟩
    refine ⟨⟨options, repartitioned⟩, ?_⟩
    simp [setRootPart, Command.attempt, Command.of, options, Settings.rootPart, Settings.options]
  have formatted : (Script.run (mkfs env)).Triple
      (fun state => (state.options = settings.options ∧
        (env.has .sfdisk = true → settings.disk ∈ state.machine.repartitioned)) ∧
          state.rootPart = settings.rootPart env)
      (Prepared env settings) (fun _ => True) := by
    rintro state ⟨⟨options, repartitioned⟩, rootPart⟩
    rw [mkfs, Script.exec_run_of]
    by_cases ok : env.ok .mkfs = true
    · simp only [ok, if_true]
      exact ⟨options, rootPart, List.mem_cons.mpr (Or.inl rootPart.symm), repartitioned⟩
    · simp [ok]
  have mounted : (Script.run (mount env)).Triple (Prepared env settings) (Prepared env settings)
      (fun _ => True) := by
    apply (Script.triple_run_same ?_).forget
    intro state prepared
    simp only [mount, Command.of, onMachine]
    split <;>
      exact ⟨prepared.options, prepared.rootPart, prepared.formatted, prepared.repartitioned⟩
  have rewritten := Script.triple_seq labelled (Script.triple_seq partitioned Script.triple_skip)
  refine Script.triple_seq made (Script.triple_seq (Script.triple_when rewritten ?_)
    (Script.triple_seq rooted (Script.triple_seq formatted
      (Script.triple_seq mounted Script.triple_skip))))
  intro state options absent
  exact ⟨options, fun present => by simp [present] at absent⟩

/-- Of the target only the copied directories and the account table matter for
the copy stage. -/
theorem Copied.congr {env : Environment} {settings : Settings} {state next : State}
    (copied : Copied env settings state) (options_eq : next.options = state.options)
    (rootPart_eq : next.rootPart = state.rootPart)
    (formatted_eq : next.machine.formatted = state.machine.formatted)
    (repartitioned_eq : next.machine.repartitioned = state.machine.repartitioned)
    (copied_eq : next.machine.target.copied = state.machine.target.copied)
    (kept : hasAccount state.machine.target.accounts settings.username = true →
      hasAccount next.machine.target.accounts settings.username = true) :
    Copied env settings next := by
  constructor
  · constructor
    · rw [options_eq, copied.options]
    · rw [rootPart_eq, copied.rootPart]
    · rw [formatted_eq]
      exact copied.formatted
    · rw [repartitioned_eq]
      exact copied.repartitioned
  · rw [copied_eq, copied.copied]
  · intro arrives
    exact kept (copied.account arrives)

/-- The account commands keep everything but the account table. -/
theorem Configured.congr {env : Environment} {settings : Settings} {state next : State}
    (configured : Configured env settings state) (options_eq : next.options = state.options)
    (rootPart_eq : next.rootPart = state.rootPart)
    (formatted_eq : next.machine.formatted = state.machine.formatted)
    (repartitioned_eq : next.machine.repartitioned = state.machine.repartitioned)
    (copied_eq : next.machine.target.copied = state.machine.target.copied)
    (boot_eq : next.machine.target.bootCopied = state.machine.target.bootCopied)
    (bootCode_eq : next.machine.bootCode = state.machine.bootCode)
    (fstab_eq : next.machine.target.fstab = state.machine.target.fstab)
    (hostname_eq : next.machine.target.hostname = state.machine.target.hostname)
    (kept : hasAccount state.machine.target.accounts settings.username = true →
      hasAccount next.machine.target.accounts settings.username = true) :
    Configured env settings next := by
  refine ⟨⟨⟨configured.toCopied.congr options_eq rootPart_eq formatted_eq repartitioned_eq
    copied_eq kept, ?_⟩, ?_⟩, ?_, ?_⟩
  · rw [boot_eq]
    exact configured.boot
  · rw [bootCode_eq]
    exact configured.bootCode
  · rw [fstab_eq, configured.fstab]
  · rw [hostname_eq, configured.hostname]

theorem copySystem_copied {env : Environment} {settings : Settings} {state : State}
    (prepared : Prepared env settings state) :
    Copied env settings (copySystem env state).2 := by
  refine ⟨⟨prepared.options, prepared.rootPart, prepared.formatted, prepared.repartitioned⟩,
    rfl, ?_⟩
  rintro ⟨etc, arrives⟩
  simpa [copySystem, Command.of, onTarget, onMachine, etc] using arrives

theorem copyBoot_bootCopied {env : Environment} {settings : Settings} {state : State}
    (copied : Copied env settings state) :
    BootCopied env settings (copyBoot env state).2 := by
  simp only [copyBoot, Command.attempt, Command.of, onTarget, onMachine]
  by_cases ok : env.ok .copyBoot = true
  · simp only [ok, if_true]
    exact ⟨copied.congr rfl rfl rfl rfl rfl fun present => present, fun _ _ => rfl⟩
  · simp only [ok]
    exact ⟨copied, fun _ works => absurd works ok⟩

theorem biosInstall_bootable {env : Environment} {settings : Settings} {state : State}
    (copied : BootCopied env settings state) :
    Bootable env settings (biosInstall env state).2 := by
  simp only [biosInstall, Command.of, onMachine]
  by_cases ok : env.ok .limine = true
  · simp only [ok, if_true]
    refine ⟨⟨copied.congr rfl rfl rfl rfl rfl fun present => present, copied.boot⟩,
      fun _ _ => ?_⟩
    rw [copied.options]
    exact List.mem_cons_self
  · simp only [ok]
    exact ⟨⟨copied.congr rfl rfl rfl rfl rfl fun present => present, copied.boot⟩,
      fun _ works => absurd works ok⟩

/-- A failing redirection to `/etc/fstab` ends the script. -/
theorem writeFstab_triple (env : Environment) (settings : Settings) :
    (Script.run (writeFstab env)).Triple (Bootable env settings)
      (fun state => Bootable env settings state ∧
        state.machine.target.fstab = some (fstabText (settings.rootPart env)))
      (fun _ => True) := by
  intro state bootable
  rw [writeFstab, Script.exec_run_attempt]
  by_cases ok : env.ok .writeFstab = true
  · simp only [ok, if_true]
    refine ⟨⟨⟨bootable.toCopied.congr rfl rfl rfl rfl rfl fun present => present,
      bootable.boot⟩, bootable.bootCode⟩, ?_⟩
    rw [← bootable.rootPart]
    rfl
  · simp [ok]

/-- A failing redirection to `/etc/hostname` ends the script. -/
theorem writeHostname_triple (env : Environment) (settings : Settings) :
    (Script.run (writeHostname env)).Triple
      (fun state => Bootable env settings state ∧
        state.machine.target.fstab = some (fstabText (settings.rootPart env)))
      (Configured env settings) (fun _ => True) := by
  rintro state ⟨bootable, fstab⟩
  rw [writeHostname, Script.exec_run_attempt]
  by_cases ok : env.ok .writeHostname = true
  · simp only [ok, if_true]
    refine ⟨⟨⟨bootable.toCopied.congr rfl rfl rfl rfl rfl fun present => present,
      bootable.boot⟩, bootable.bootCode⟩, fstab, ?_⟩
    simp [onTarget, onMachine, bootable.options, Settings.options]
  · simp [ok]

theorem createUser_accounted {env : Environment} {settings : Settings} {state : State}
    (configured : Configured env settings state) :
    Accounted env settings (createUser env state).2 := by
  have kept : hasAccount state.machine.target.accounts settings.username = true →
      hasAccount (createUser env state).2.machine.target.accounts settings.username = true := by
    intro present
    simp only [createUser, Command.of, onTarget, onMachine]
    split
    · simp only [hasAccount, List.any_cons] at present ⊢
      rw [present, Bool.or_true]
    · exact present
  refine ⟨configured.congr rfl rfl rfl rfl ?_ ?_ rfl ?_ ?_ kept, ?_⟩
  · simp only [createUser, Command.of, onTarget, onMachine]
    split <;> rfl
  · simp only [createUser, Command.of, onTarget, onMachine]
    split <;> rfl
  · simp only [createUser, Command.of, onTarget, onMachine]
    split <;> rfl
  · simp only [createUser, Command.of, onTarget, onMachine]
    split <;> rfl
  · intro creates
    by_cases present : hasAccount state.machine.target.accounts settings.username = true
    · exact kept present
    · have username_eq : state.options.newUsername = settings.username := by
        rw [configured.options]
        rfl
      simp [createUser, Command.of, onTarget, onMachine, username_eq, idSucceeds, useraddSucceeds,
        present, creates.name, creates.number, creates.valid, creates.useradd]

/-- Setting a password keeps what was reached before it. -/
theorem chpasswd_accounted {env : Environment} {settings : Settings} {state : State}
    (accounted : Accounted env settings state) (call : Call) (user : State → String) :
    Accounted env settings (chpasswd env call user state).2 := by
  have kept : hasAccount state.machine.target.accounts settings.username = true →
      hasAccount (chpasswd env call user state).2.machine.target.accounts settings.username =
        true := by
    intro present
    rw [hasAccount_chpasswd, present]
  exact ⟨accounted.toConfigured.congr rfl rfl rfl rfl rfl rfl rfl rfl rfl kept,
    fun creates => kept (accounted.created creates)⟩

theorem chpasswdUser_secured {env : Environment} {settings : Settings} {state : State}
    (accounted : Accounted env settings state) :
    Secured env settings (chpasswdUser env state).2 := by
  refine ⟨chpasswd_accounted accounted .chpasswdUser _, ?_⟩
  intro works plain present
  have username_eq : state.options.newUsername = settings.username := by
    rw [accounted.options]
    rfl
  have password_eq : state.options.newPassword = settings.password := by
    rw [accounted.options]
    rfl
  rw [← username_eq, ← password_eq] at plain
  rw [chpasswdUser, hasAccount_chpasswd, ← username_eq] at present
  rw [← username_eq, ← password_eq]
  exact passwordOf_chpasswd_self works plain present

/-- The record of `root` is plain when the password has no newline. -/
theorem plainRecord_root {password : String} (plain : '\n' ∉ password.toList) :
    PlainRecord "root" password where
  colon := by decide
  user := by decide
  password := plain

/-- A configured target is installed once the accounts are what the guarded
commands promise. -/
theorem Configured.installed {env : Environment} {settings : Settings} {state : State}
    (configured : Configured env settings state)
    (created : CreatesAccount env settings →
      hasAccount state.machine.target.accounts settings.username = true)
    (userPassword : env.has .chroot = true → env.ok .chpasswdUser = true →
      PlainRecord settings.username settings.password →
      hasAccount state.machine.target.accounts settings.username = true →
      passwordOf state.machine.target.accounts settings.username = some settings.password)
    (rootPassword : env.has .chroot = true → env.ok .chpasswdRoot = true →
      '\n' ∉ settings.password.toList →
      hasAccount state.machine.target.accounts "root" = true →
      passwordOf state.machine.target.accounts "root" = some settings.password) :
    Installed env settings state.machine := by
  refine ⟨configured.formatted, configured.repartitioned, ?_, configured.boot,
    configured.bootCode, configured.fstab, ?_, ?_, userPassword, rootPassword⟩
  · intro directory operand found copies
    rw [configured.copied, copiedOperands, List.mem_filter]
    exact ⟨operand, by simp [found, copies]⟩
  · intro notOption
    rw [configured.hostname, echo, notOption]
    rfl
  · rintro (arrives | creates)
    · exact configured.account arrives
    · exact created creates

/-- The last account command completes what status 0 guarantees. -/
theorem chpasswdRoot_installed {env : Environment} {settings : Settings} {state : State}
    (secured : Secured env settings state) :
    Installed env settings (chpasswdRoot env state).2.machine := by
  have final : Accounted env settings (chpasswdRoot env state).2 :=
    chpasswd_accounted secured.toAccounted .chpasswdRoot _
  have password_eq : state.options.newPassword = settings.password := by
    rw [secured.options]
    rfl
  apply final.toConfigured.installed final.created
  · intro _ works plain present
    rw [chpasswdRoot, hasAccount_chpasswd] at present
    have already := secured.userPassword works plain present
    rw [← password_eq] at already ⊢
    apply passwordOf_chpasswd_of_eq _ present already
    rw [password_eq]
    exact plainRecord_root plain.password
  · intro _ works plain present
    rw [chpasswdRoot, hasAccount_chpasswd] at present
    rw [← password_eq] at plain ⊢
    exact passwordOf_chpasswd_self works (plainRecord_root plain) present

/-- Without `chroot` nothing is promised beyond the configuration. -/
theorem Configured.installed_of_no_chroot {env : Environment} {settings : Settings} {state : State}
    (configured : Configured env settings state) (absent : env.has .chroot = false) :
    Installed env settings state.machine := by
  have noChroot : env.has .chroot ≠ true := by simp [absent]
  exact configured.installed (fun creates => absurd creates.chroot noChroot)
    (fun present => absurd present noChroot) fun present => absurd present noChroot

theorem populate_installed (env : Environment) (settings : Settings) :
    (populate env).Triple (Prepared env settings)
      (fun state => Installed env settings state.machine) (fun _ => True) := by
  have copied : (Script.tolerate (copySystem env)).Triple (Prepared env settings)
      (Copied env settings) (fun _ => True) :=
    (Script.triple_tolerate fun _ => copySystem_copied).forget
  have kept : ∀ {ok : Bool} {effect : State → State},
      (∀ state, Copied env settings state → Copied env settings (effect state)) →
        ∀ state, Copied env settings state →
          Copied env settings (Command.attempt ok effect state).2 := by
    intro ok effect effectKeeps state holds
    exact Command.attempt_snd (Copied env settings) holds (effectKeeps state holds)
  have made : (Script.run (mkdirTree env)).Triple (Copied env settings) (Copied env settings)
      (fun _ => True) :=
    (Script.triple_run_same (kept fun _ holds => holds)).forget
  have boot : (Script.when (fun _ => decide ("boot" ∈ env.live.directories))
      (.tolerate (copyBoot env))).Triple (Copied env settings) (BootCopied env settings)
      (fun _ => True) := by
    apply Script.triple_when
    · apply (Script.triple_tolerate ?_).forget
      rintro state ⟨holds, _⟩
      exact copyBoot_bootCopied holds
    · intro state holds absent
      exact ⟨holds, fun present => by simp [present] at absent⟩
  have limine : (Script.when (fun _ => env.has .limine) (.tolerate (biosInstall env))).Triple
      (BootCopied env settings) (Bootable env settings) (fun _ => True) := by
    apply Script.triple_when
    · apply (Script.triple_tolerate ?_).forget
      rintro state ⟨holds, _⟩
      exact biosInstall_bootable holds
    · intro state holds absent
      exact ⟨holds, fun present => by simp [present] at absent⟩
  have accounts : (Script.when (fun _ => env.has .chroot) (setAccounts env)).Triple
      (Configured env settings) (fun state => Installed env settings state.machine)
      (fun _ => True) := by
    apply Script.triple_when
    · have created : (Script.tolerate (createUser env)).Triple
          (fun state => Configured env settings state ∧ env.has .chroot = true)
          (Accounted env settings) (fun _ => True) :=
        (Script.triple_tolerate fun _ holds => createUser_accounted holds.1).forget
      have user : (Script.tolerate (chpasswdUser env)).Triple (Accounted env settings)
          (Secured env settings) (fun _ => True) :=
        (Script.triple_tolerate fun _ => chpasswdUser_secured).forget
      have root : (Script.tolerate (chpasswdRoot env)).Triple (Secured env settings)
          (fun state => Installed env settings state.machine) (fun _ => True) :=
        (Script.triple_tolerate fun _ => chpasswdRoot_installed).forget
      exact Script.triple_seq created (Script.triple_seq user
        (Script.triple_seq root Script.triple_skip))
    · intro state holds absent
      exact holds.installed_of_no_chroot absent
  have unmounted : (Script.tolerate (umount env)).Triple
      (fun state => Installed env settings state.machine)
      (fun state => Installed env settings state.machine) (fun _ => True) := by
    apply (Script.triple_tolerate ?_).forget
    intro state holds
    apply Command.attempt_snd (fun state : State => Installed env settings state.machine) holds
    exact ⟨holds.formatted, holds.repartitioned, holds.copied, holds.boot, holds.bootCode,
      holds.fstab, holds.hostname, holds.account, holds.userPassword, holds.rootPassword⟩
  exact Script.triple_seq copied (Script.triple_seq made (Script.triple_seq boot
    (Script.triple_seq limine (Script.triple_seq (writeFstab_triple env settings)
      (Script.triple_seq (writeHostname_triple env settings) (Script.triple_seq accounts
        (Script.triple_seq unmounted Script.triple_skip)))))))

/-! ## Exit status 0 -/

/-- The gates, passed with the wizard's command line. -/
theorem gates_of_success {env : Environment} {settings : Settings} {stdin : List String}
    {machine : Machine}
    (success : ((gates env settings.command).exec (.start stdin machine)).code = 0) :
    (gates env settings.command).exec (.start stdin machine) =
        .continues { State.start stdin machine with options := settings.options } ∧
      settings.disk ≠ "" ∧ machine.devices.isBlock settings.disk = true := by
  have parsed := settings.parsed
  by_cases root : env.uid = 0
  · by_cases named : settings.disk = ""
    · simp [gates, Script.exec_seq, Script.exec_run_of, parse, State.start, parsed, root,
        targetInvalid, named, Settings.options] at success
    · by_cases block : machine.devices.isBlock settings.disk = true
      · exact ⟨exec_gates_nonInteractive root parsed rfl named block stdin, named, block⟩
      · simp [gates, Script.exec_seq, Script.exec_run_of, parse, State.start, parsed, root,
          targetInvalid, named, block, Settings.options] at success
  · simp [gates, Script.exec_seq, Script.exec_run_of, parse, State.start, parsed, root]
      at success

/-- The commands that decide the exit status: the plain ones. -/
structure PlainCommandsSucceed (env : Environment) : Prop extends Prepares env where
  tree : env.ok .mkdirTree = true
  fstab : env.ok .writeFstab = true
  hostname : env.ok .writeHostname = true

theorem install_exitsNonzero (env : Environment) :
    (Script.seq (prepare env) (populate env)).ExitsNonzero := by
  simp [prepare, populate, setAccounts, Script.block, Script.when, Script.ExitsNonzero]

theorem running_install (env : Environment) (state : State) :
    ((Script.seq (prepare env) (populate env)).exec state).running = true ↔
      PlainCommandsSucceed env := by
  have runsFirst := running_prepare env state
  rw [Script.exec_seq]
  cases first : (prepare env).exec state with
  | exited code stopped =>
      rw [first] at runsFirst
      constructor
      · intro runs
        contradiction
      · intro plain
        exact runsFirst.mpr plain.toPrepares
  | continues ready =>
      rw [first] at runsFirst
      rw [Outcome.bind_continues, running_populate]
      constructor
      · rintro ⟨tree, fstab, hostname⟩
        exact ⟨runsFirst.mp rfl, tree, fstab, hostname⟩
      · intro plain
        exact ⟨plain.tree, plain.fstab, plain.hostname⟩

/-- A successful run passes the gates and runs to the end of the text. -/
theorem continues_of_success {env : Environment} {settings : Settings} {stdin : List String}
    {machine : Machine}
    (success : ((installer env settings.command).exec (.start stdin machine)).code = 0) :
    settings.disk ≠ "" ∧ machine.devices.isBlock settings.disk = true ∧
      ∃ final, (installer env settings.command).exec (.start stdin machine) = .continues final ∧
        (Script.seq (prepare env) (populate env)).exec
          { State.start stdin machine with options := settings.options } = .continues final := by
  rw [installer, Script.exec_seq] at success ⊢
  have gated : ((gates env settings.command).exec (.start stdin machine)).code = 0 := by
    cases ended : (gates env settings.command).exec (.start stdin machine) with
    | continues admitted => rfl
    | exited code stopped =>
        rw [ended] at success
        exact success
  obtain ⟨passed, named, block⟩ := gates_of_success gated
  rw [passed, Outcome.bind_continues] at success ⊢
  obtain ⟨final, continued⟩ := (install_exitsNonzero env).continues success
  exact ⟨named, block, final, continued, continued⟩

/-- With the wizard's command line, status 0 means that root has run the script
on a block device and that the plain commands have succeeded; no guarded command
has a say in it. -/
theorem exit_zero_iff (env : Environment) (settings : Settings) (stdin : List String)
    (machine : Machine) :
    ((installer env settings.command).exec (.start stdin machine)).code = 0 ↔
      env.uid = 0 ∧ settings.disk ≠ "" ∧ machine.devices.isBlock settings.disk = true ∧
        PlainCommandsSucceed env := by
  constructor
  · intro success
    obtain ⟨named, block, final, _, continued⟩ := continues_of_success success
    refine ⟨?_, named, block, ?_⟩
    · by_contra notRoot
      simp [installer, gates, Script.exec_seq, Script.exec_run_of, parse, State.start,
        settings.parsed, notRoot] at success
    · rw [← running_install env { State.start stdin machine with options := settings.options },
        continued]
      rfl
  · rintro ⟨root, named, block, plain⟩
    have gated := exec_gates_nonInteractive root settings.parsed rfl named block stdin
    rw [installer, Script.exec_seq_of_continues gated]
    have runs := (running_install env { State.start stdin machine with
      options := settings.options }).mpr plain
    cases ended : (Script.seq (prepare env) (populate env)).exec
        { State.start stdin machine with options := settings.options } with
    | continues final => rfl
    | exited code stopped =>
        rw [ended] at runs
        contradiction

/-- The wizard's defaults with a SATA disk. -/
def sataSettings : Settings :=
  ⟨"/dev/sda", "aqj-os", "aqj", "aqj123", "Asia/Jakarta"⟩

/-- Root on a live system that has every tool and all the directories; `works`
says which commands succeed. -/
def liveEnvironment (works : Call → Bool) : Environment where
  uid := 0
  has := fun _ => true
  ok := works
  partitions := fun call => if call = .sfdiskPartition then [1] else []
  copies := fun _ => true
  live := ⟨["bin", "boot", "etc", "lib", "lib64", "opt", "root", "sbin", "usr", "var"],
    [⟨"root", none⟩, ⟨"daemon", none⟩], "UTC"⟩
  fragmentAccounts := []
  fragmentTimezone := none
  knowsUid := fun number => number = "0"
  applies := fun _ _ => false

theorem liveRun_succeeds {works : Call → Bool}
    (guarded : ∀ call, call ≠ .limine → works call = true) :
    ((installer (liveEnvironment works) sataSettings.command).exec
      (.start [] (.untouched sataDevices []))).code = 0 := by
  rw [exit_zero_iff]
  exact ⟨rfl, by decide, by decide, ⟨⟨guarded _ (by decide),
    fun _ => ⟨guarded _ (by decide), guarded _ (by decide)⟩, guarded _ (by decide),
    guarded _ (by decide)⟩, guarded _ (by decide), guarded _ (by decide), guarded _ (by decide)⟩⟩

end AqjOs.Installer
