import AqjOs.Installer.Completion
import Mathlib.Data.List.TakeWhile

/-!
# Which accounts get the password

The user name and the password are spliced into the text that `chpasswd` splits
again, at newlines into records and in each record at the first colon.  The
account table that the script leaves shows no other change than the two passwords
exactly where every record that comes out names nobody, or the user or root
together with the password that went in.
-/

namespace AqjOs.Installer

open AqjOs.Shell

/-! ## Records -/

theorem newline_notMem_textLines {text line : List Char} (member : line ∈ textLines text) :
    '\n' ∉ line := by
  induction text generalizing line with
  | nil => cases member
  | cons character text ih =>
      rw [textLines] at member
      by_cases newline : character = '\n'
      · rw [if_pos newline] at member
        rcases List.mem_cons.mp member with rfl | later
        · exact List.not_mem_nil
        · exact ih later
      · rw [if_neg newline] at member
        cases lines : textLines text with
        | nil =>
            rw [lines] at member
            rw [List.mem_singleton.mp member]
            simpa using Ne.symm newline
        | cons first others =>
            rw [lines] at member ih
            rcases List.mem_cons.mp member with rfl | later
            · have firstLine := ih List.mem_cons_self
              simp [firstLine, Ne.symm newline]
            · exact ih (List.mem_cons_of_mem first later)

/-- What `chpasswd` reads as one record has no newline in it and no colon in its
name, whatever was written. -/
theorem plain_of_mem_chpasswdRecords {user given name password : String}
    (member : some (name, password) ∈ chpasswdRecords user given) :
    PlainRecord name password := by
  obtain ⟨line, inText, record⟩ := List.mem_map.mp member
  have noNewline := newline_notMem_textLines inText
  rw [chpasswdRecord] at record
  split at record
  · cases record
  · case h_2 colon rest dropped =>
      obtain ⟨rfl, rfl⟩ := Prod.mk.inj (Option.some.inj record)
      have restSuffix : (colon :: rest) <:+ line := by
        rw [← dropped]
        exact List.dropWhile_suffix _
      constructor
      · rw [String.toList_ofList]
        intro inName
        have differs := List.mem_takeWhile_imp inName
        simp at differs
      · rw [String.toList_ofList]
        intro inName
        exact noNewline ((List.takeWhile_prefix _).subset inName)
      · rw [String.toList_ofList]
        intro inPassword
        exact noNewline (restSuffix.subset (List.mem_cons_of_mem colon inPassword))

/-! ## Strings that stay what they are -/

/-- No record of the two pipes names an account other than the user and root, or
brings another password: a record without a name reaches nobody. -/
structure Harmless (username password : String) : Prop where
  oneLine : '\n' ∉ password.toList
  records : ∀ name set, some (name, set) ∈ chpasswdRecords username password →
    name = "" ∨ ((name = username ∨ name = "root") ∧ set = password)

theorem harmless_of_plain {username password : String} (plain : PlainRecord username password) :
    Harmless username password where
  oneLine := plain.password
  records := by
    intro name set member
    rw [chpasswdRecords_of_plain plain, List.mem_singleton] at member
    obtain ⟨rfl, rfl⟩ := Prod.mk.inj (Option.some.inj member)
    exact .inr ⟨.inl rfl, rfl⟩

/-- A name and a password of one line are harmless if and only if the name has no
colon, or begins with one. -/
theorem harmless_iff_of_lines {username password : String} (user : '\n' ∉ username.toList)
    (given : '\n' ∉ password.toList) :
    Harmless username password ↔
      ':' ∉ username.toList ∨ username.toList.head? = some ':' := by
  have text : (username ++ ":" ++ password ++ "\n").toList =
      (username.toList ++ ':' :: password.toList) ++ ['\n'] := by simp
  have oneLine : '\n' ∉ username.toList ++ ':' :: password.toList := by
    simp [user, given]
  have records : chpasswdRecords username password =
      [chpasswdRecord (username.toList ++ ':' :: password.toList)] := by
    rw [chpasswdRecords, text, textLines_line oneLine, List.map_singleton]
  by_cases colon : ':' ∈ username.toList
  · obtain ⟨front, back, split, first⟩ := List.eq_append_cons_of_mem colon
    have inFront : ∀ character ∈ front, decide (character ≠ ':') = true := by
      intro character member
      exact decide_eq_true fun equal => first (equal ▸ member)
    have record : chpasswdRecord (username.toList ++ ':' :: password.toList) =
        some (String.ofList front, String.ofList (back ++ ':' :: password.toList)) := by
      rw [split, List.append_assoc, List.cons_append, chpasswdRecord,
        List.dropWhile_append_of_pos inFront, List.takeWhile_append_of_pos inFront]
      simp
    rw [record] at records
    have longer : String.ofList (back ++ ':' :: password.toList) ≠ password := by
      intro same
      have lengths := congrArg (fun text => text.toList.length) same
      simp only [String.toList_ofList, List.length_append, List.length_cons] at lengths
      omega
    constructor
    · intro harmless
      right
      have named := harmless.records _ _ (by rw [records]; exact List.mem_singleton_self _)
      rcases named with nothing | ⟨-, same⟩
      · have empty : front = [] := by simpa using congrArg String.toList nothing
        rw [split, empty]
        rfl
      · exact absurd same longer
    · rintro (none | leading)
      · exact absurd colon none
      · refine ⟨given, ?_⟩
        intro name set member
        rw [records, List.mem_singleton] at member
        obtain ⟨rfl, rfl⟩ := Prod.mk.inj (Option.some.inj member)
        left
        cases front with
        | nil => rfl
        | cons character front =>
            rw [split] at leading
            have same : character = ':' := by simpa using leading
            exact absurd (same ▸ List.mem_cons_self) first
  · simp only [colon, not_false_eq_true, true_or, iff_true]
    exact harmless_of_plain ⟨colon, user, given⟩

/-! ## The account table -/

/-- Every account has a name that an account can have. -/
def Nameable (accounts : List Account) : Prop :=
  ∀ account ∈ accounts, isAccountName account.name = true

theorem isAccountName_iff (name : String) :
    isAccountName name = true ↔ name ≠ "" ∧ ':' ∉ name.toList ∧ '\n' ∉ name.toList := by
  have nonempty : name.toList = [] ↔ name = "" := by simp
  simp only [isAccountName, Bool.and_eq_true, Bool.not_eq_true', List.isEmpty_eq_false_iff,
    List.all_eq_true, decide_eq_true_eq, ne_eq, nonempty]
  constructor
  · rintro ⟨named, each⟩
    exact ⟨named, fun colon => (each _ colon).1 rfl, fun newline => (each _ newline).2 rfl⟩
  · rintro ⟨named, noColon, noNewline⟩
    refine ⟨named, fun character member => ⟨?_, ?_⟩⟩
    · rintro rfl
      exact noColon member
    · rintro rfl
      exact noNewline member

/-- An account that is neither the user's nor root. -/
def isForeign (username : String) (account : Account) : Bool :=
  account.name ≠ username && account.name ≠ "root"

/-- The account table after the script's account commands. -/
def accountsAfter (env : Environment) (state : State) : List Account :=
  ((setAccounts env).exec state).state.machine.target.accounts

/-- The account commands leave the foreign accounts as they are, set no other
password than the given one, and set that one where `chpasswd` works. -/
structure Contained (env : Environment) (state : State) : Prop where
  others : (accountsAfter env state).filter (isForeign state.options.newUsername) =
    state.machine.target.accounts.filter (isForeign state.options.newUsername)
  only : ∀ name, name = state.options.newUsername ∨ name = "root" →
    passwordOf (accountsAfter env state) name = passwordOf state.machine.target.accounts name ∨
      passwordOf (accountsAfter env state) name = some state.options.newPassword
  user : env.ok .chpasswdUser = true →
    hasAccount (accountsAfter env state) state.options.newUsername = true →
    passwordOf (accountsAfter env state) state.options.newUsername =
      some state.options.newPassword
  root : env.ok .chpasswdRoot = true → hasAccount (accountsAfter env state) "root" = true →
    passwordOf (accountsAfter env state) "root" = some state.options.newPassword

/-- The account table goes through three commands. -/
theorem accountsAfter_eq (env : Environment) (state : State) :
    accountsAfter env state =
      (chpasswdRoot env (chpasswdUser env
        (createUser env state).2).2).2.machine.target.accounts := by
  simp only [accountsAfter, setAccounts, Script.block_cons, Script.block_nil, Script.exec_seq,
    createUser, chpasswdUser, chpasswdRoot, chpasswd, Script.exec_tolerate_of,
    Outcome.bind_continues, Script.exec_skip, Outcome.state_continues, Command.of]

theorem hasAccount_iff (accounts : List Account) (name : String) :
    hasAccount accounts name = true ↔ ∃ account ∈ accounts, account.name = name := by
  simp [hasAccount]

theorem Nameable.isAccountName {accounts : List Account} {name : String}
    (nameable : Nameable accounts) (present : hasAccount accounts name = true) :
    Installer.isAccountName name = true := by
  obtain ⟨account, member, rfl⟩ := (hasAccount_iff accounts name).mp present
  exact nameable account member

theorem Nameable.setPassword {accounts : List Account} (nameable : Nameable accounts)
    (name password : String) : Nameable (setPassword accounts name password) := by
  intro account member
  obtain ⟨old, inOld, rfl⟩ := List.mem_map.mp member
  have named := nameable old inOld
  split
  · exact named
  · exact named

theorem setPassword_of_absent {accounts : List Account} {name : String}
    (absent : hasAccount accounts name = false) (password : String) :
    setPassword accounts name password = accounts := by
  have same : ∀ account ∈ accounts,
      (if account.name = name then { account with password := some password } else account) =
        account := by
    intro account member
    rw [if_neg]
    rintro rfl
    rw [(hasAccount_iff accounts account.name).mpr ⟨account, member, rfl⟩] at absent
    contradiction
  rw [setPassword, List.map_congr_left same, List.map_id']

theorem filter_setPassword {username name : String} (mine : name = username ∨ name = "root")
    (accounts : List Account) (password : String) :
    (setPassword accounts name password).filter (isForeign username) =
      accounts.filter (isForeign username) := by
  induction accounts with
  | nil => rfl
  | cons account accounts ih =>
      have rest := ih
      rw [setPassword] at rest ⊢
      by_cases same : account.name = name
      · have own : ∀ other : Account, other.name = name → isForeign username other = false := by
          rintro other rfl
          rcases mine with user | root
          · simp [isForeign, user]
          · simp [isForeign, root]
        have after : isForeign username { account with password := some password } = false :=
          own _ same
        rw [List.map_cons, if_pos same, List.filter_cons, if_neg (by simp [after]),
          List.filter_cons, if_neg (by simp [own account same]), rest]
      · rw [List.map_cons, if_neg same]
        by_cases foreign : isForeign username account = true
        · rw [List.filter_cons_of_pos foreign, List.filter_cons_of_pos foreign, rest]
        · rw [List.filter_cons_of_neg foreign, List.filter_cons_of_neg foreign, rest]

/-! ## Harmless records -/

/-- What the account commands may have made of an account table. -/
structure Kept (username password : String) (before after : List Account) : Prop where
  nameable : Nameable after
  others : after.filter (isForeign username) = before.filter (isForeign username)
  only : ∀ name, name = username ∨ name = "root" →
    passwordOf after name = passwordOf before name ∨ passwordOf after name = some password

section Kept

variable {username password : String} {before accounts : List Account}

theorem Kept.setPassword (kept : Kept username password before accounts) {name : String}
    (mine : name = username ∨ name = "root") :
    Kept username password before (setPassword accounts name password) where
  nameable := kept.nameable.setPassword name password
  others := by rw [filter_setPassword mine, kept.others]
  only := by
    intro other isMine
    by_cases same : other = name
    · subst same
      cases present : hasAccount accounts other with
      | true => exact .inr (passwordOf_setPassword_self present password)
      | false =>
          rw [setPassword_of_absent present]
          exact kept.only other isMine
    · rw [passwordOf_setPassword_of_ne same]
      exact kept.only other isMine

/-- A record after the other, the table stays within its bounds. -/
theorem Kept.applyRecords (kept : Kept username password before accounts)
    {records : List (Option (String × String))}
    (harmless : ∀ name set, some (name, set) ∈ records →
      name = "" ∨ ((name = username ∨ name = "root") ∧ set = password)) :
    Kept username password before (applyRecords accounts records) := by
  induction records generalizing accounts with
  | nil => exact kept
  | cons record records ih =>
      have later : ∀ name set, some (name, set) ∈ records →
          name = "" ∨ ((name = username ∨ name = "root") ∧ set = password) :=
        fun name set member => harmless name set (List.mem_cons_of_mem _ member)
      cases record with
      | none => exact ih kept later
      | some record =>
          obtain ⟨name, set⟩ := record
          rw [applyRecords_cons_some]
          rcases harmless name set List.mem_cons_self with rfl | ⟨mine, rfl⟩
          · have absent : hasAccount accounts "" = false := by
              rw [Bool.eq_false_iff]
              intro present
              have named := kept.nameable.isAccountName present
              exact absurd named (by decide)
            rw [setPassword_of_absent absent]
            exact ih kept later
          · exact ih (kept.setPassword mine) later

theorem mem_of_mem_appliedRecords {env : Environment} {call : Call} {user given : String}
    {record : Option (String × String)}
    (member : record ∈ appliedRecords env call accounts user given) :
    record ∈ chpasswdRecords user given := by
  rw [appliedRecords] at member
  split at member
  · exact member
  · obtain ⟨⟨found, index⟩, inFilter, rfl⟩ := List.mem_map.mp member
    exact List.fst_mem_of_mem_zipIdx (List.mem_of_mem_filter inFilter)

theorem Kept.chpasswd (env : Environment) (call : Call) (user : State → String) (state : State)
    (kept : Kept username state.options.newPassword before state.machine.target.accounts)
    (harmless : ∀ name set,
      some (name, set) ∈ chpasswdRecords (user state) state.options.newPassword →
        name = "" ∨ ((name = username ∨ name = "root") ∧ set = state.options.newPassword)) :
    Kept username state.options.newPassword before
      (chpasswd env call user state).2.machine.target.accounts :=
  kept.applyRecords fun name set member =>
    harmless name set (mem_of_mem_appliedRecords member)

/-- `useradd` adds at most the user, without a password. -/
theorem createUser_kept (env : Environment) {state : State}
    (nameable : Nameable state.machine.target.accounts) :
    Kept state.options.newUsername password state.machine.target.accounts
      (createUser env state).2.machine.target.accounts := by
  simp only [createUser, Command.of, onTarget, onMachine]
  split
  · rename_i creates
    simp only [Bool.and_eq_true, useraddSucceeds, Bool.not_eq_true'] at creates
    obtain ⟨⟨-, ⟨-, valid⟩, absent⟩, -⟩ := creates
    refine ⟨?_, ?_, ?_⟩
    · intro account member
      rcases List.mem_cons.mp member with rfl | old
      · exact valid
      · exact nameable account old
    · rw [List.filter_cons_of_neg]
      simp [isForeign]
    · intro name _
      left
      by_cases same : name = state.options.newUsername
      · have missing : ∀ account ∈ state.machine.target.accounts,
            ¬ account.name = state.options.newUsername := by
          intro account member equal
          rw [(hasAccount_iff _ _).mpr ⟨account, member, equal⟩] at absent
          contradiction
        have none : state.machine.target.accounts.find?
            (fun account => account.name = state.options.newUsername) = none := by
          rw [List.find?_eq_none]
          intro account member
          simpa using missing account member
        simp [passwordOf, same, none]
      · simp [passwordOf, Ne.symm same]
  · exact ⟨nameable, rfl, fun _ _ => .inl rfl⟩

end Kept

theorem contained_of_harmless {env : Environment} {state : State}
    (nameable : Nameable state.machine.target.accounts)
    (harmless : Harmless state.options.newUsername state.options.newPassword) :
    Contained env state := by
  have rootPlain : PlainRecord "root" state.options.newPassword :=
    plainRecord_root harmless.oneLine
  have created : Kept state.options.newUsername state.options.newPassword
      state.machine.target.accounts (createUser env state).2.machine.target.accounts :=
    createUser_kept env nameable
  have userSet : Kept state.options.newUsername state.options.newPassword
      state.machine.target.accounts
      (chpasswdUser env (createUser env state).2).2.machine.target.accounts :=
    Kept.chpasswd env .chpasswdUser _ (createUser env state).2 created harmless.records
  have rootSet : Kept state.options.newUsername state.options.newPassword
      state.machine.target.accounts (accountsAfter env state) := by
    rw [accountsAfter_eq]
    apply Kept.chpasswd env .chpasswdRoot _ (chpasswdUser env (createUser env state).2).2 userSet
    intro name set member
    right
    have inRoot : some (name, set) ∈ chpasswdRecords "root" state.options.newPassword := member
    rw [chpasswdRecords_of_plain rootPlain, List.mem_singleton] at inRoot
    obtain ⟨rfl, rfl⟩ := Prod.mk.inj (Option.some.inj inRoot)
    exact ⟨.inr rfl, rfl⟩
  refine ⟨rootSet.others, rootSet.only, ?_, ?_⟩
  · intro works present
    rw [accountsAfter_eq] at present ⊢
    rw [chpasswdRoot, hasAccount_chpasswd] at present
    have there := present
    rw [chpasswdUser, hasAccount_chpasswd] at there
    have valid := (isAccountName_iff _).mp (created.nameable.isAccountName there)
    have plain : PlainRecord state.options.newUsername state.options.newPassword :=
      ⟨valid.2.1, valid.2.2, harmless.oneLine⟩
    have already : passwordOf (chpasswdUser env (createUser env state).2).2.machine.target.accounts
        state.options.newUsername = some state.options.newPassword :=
      passwordOf_chpasswd_self works plain there
    exact passwordOf_chpasswd_of_eq rootPlain present already
  · intro works present
    rw [accountsAfter_eq] at present ⊢
    rw [chpasswdRoot, hasAccount_chpasswd] at present
    exact passwordOf_chpasswd_self works rootPlain present

/-! ## Records that do harm -/

theorem passwordOf_applyRecords (accounts : List Account)
    (records : List (Option (String × String))) (name : String) :
    passwordOf (applyRecords accounts records) name = passwordOf accounts name ∨
      ∃ set, some (name, set) ∈ records ∧
        passwordOf (applyRecords accounts records) name = some set := by
  induction records generalizing accounts with
  | nil => exact .inl rfl
  | cons record records ih =>
      cases record with
      | none =>
          rcases ih accounts with same | ⟨set, member, found⟩
          · exact .inl same
          · exact .inr ⟨set, List.mem_cons_of_mem _ member, found⟩
      | some record =>
          obtain ⟨other, given⟩ := record
          rw [applyRecords_cons_some]
          rcases ih (setPassword accounts other given) with same | ⟨set, member, found⟩
          · rw [same]
            by_cases equal : name = other
            · subst equal
              cases present : hasAccount accounts name with
              | true =>
                  exact .inr ⟨given, List.mem_cons_self,
                    passwordOf_setPassword_self present given⟩
              | false => exact .inl (by rw [setPassword_of_absent present])
            · exact .inl (passwordOf_setPassword_of_ne equal accounts given)
          · exact .inr ⟨set, List.mem_cons_of_mem _ member, found⟩

/-- A run on a target whose accounts are these. -/
def State.withAccounts (username password : String) (accounts : List Account)
    (machine : Machine) : State :=
  { State.start [] { machine with target := { Target.empty with accounts } } with
    options := { Options.default with newUsername := username, newPassword := password } }

theorem createUser_of_not_ok {env : Environment} (fails : env.ok .useradd = false)
    (state : State) :
    (createUser env state).2.machine.target.accounts = state.machine.target.accounts := by
  simp [createUser, Command.of, onTarget, onMachine, useraddSucceeds, fails]

/-- Of the numbered elements of a list only one has a given number. -/
theorem filter_zipIdx_index {α : Type} (start : Nat) {elements : List α} {index : Nat}
    (below : index < elements.length) :
    ((elements.zipIdx start).filter fun element => element.2 = start + index).map Prod.fst =
      [elements[index]] := by
  induction elements generalizing start index with
  | nil => cases below
  | cons first rest ih =>
      rw [List.zipIdx_cons]
      cases index with
      | zero =>
          have later : ((rest.zipIdx (start + 1)).filter
              fun element => element.2 = start + 0) = [] := by
            rw [List.filter_eq_nil_iff]
            intro element member
            have numbered := List.le_snd_of_mem_zipIdx member
            simp only [decide_eq_true_eq]
            omega
          rw [List.filter_cons_of_pos (by simp), List.map_cons, later]
          rfl
      | succ index =>
          have inRest : index < rest.length := by simpa using below
          have shifted := ih (start + 1) inRest
          rw [show start + 1 + index = start + (index + 1) by omega] at shifted
          rw [List.filter_cons_of_neg (by simp), shifted]
          rfl

section Contained

variable {username password : String}
  (contained : ∀ (env : Environment) (state : State), state.options.newUsername = username →
    state.options.newPassword = password → Nameable state.machine.target.accounts →
    Contained env state)

include contained

/-- What the root pipe can set has no newline. -/
theorem oneLine_of_contained : '\n' ∉ password.toList := by
  let env := liveEnvironment fun call => call ≠ .useradd
  let state := State.withAccounts username password [⟨"root", none⟩] (.untouched sataDevices [])
  have nameable : Nameable state.machine.target.accounts := by
    intro account member
    rw [List.mem_singleton.mp member]
    decide
  have created : (createUser env state).2.machine.target.accounts = [⟨"root", none⟩] :=
    createUser_of_not_ok rfl state
  have present : hasAccount (accountsAfter env state) "root" = true := by
    rw [accountsAfter_eq, chpasswdRoot, hasAccount_chpasswd, chpasswdUser, hasAccount_chpasswd,
      created]
    decide
  have given := (contained env state rfl rfl nameable).root rfl present
  rw [accountsAfter_eq] at given
  change passwordOf (applyRecords (applyRecords (createUser env state).2.machine.target.accounts
    (appliedRecords ..)) (appliedRecords ..)) "root" = some password at given
  have fromRecord : ∀ {user set}, some ("root", set) ∈ chpasswdRecords user password →
      some set = some password → '\n' ∉ password.toList := by
    intro user set member same
    cases same
    exact (plain_of_mem_chpasswdRecords member).password
  rcases passwordOf_applyRecords _ _ "root" with same | ⟨set, member, found⟩
  · rw [same] at given
    rcases passwordOf_applyRecords _ _ "root" with same | ⟨set, member, found⟩
    · rw [same, created] at given
      cases given
    · exact fromRecord (mem_of_mem_appliedRecords member) (found.symm.trans given)
  · exact fromRecord (mem_of_mem_appliedRecords member) (found.symm.trans given)

/-- Each record alone reaches nobody, or is one that was meant. -/
theorem records_of_contained (name set : String)
    (member : some (name, set) ∈ chpasswdRecords username password) :
    name = "" ∨ ((name = username ∨ name = "root") ∧ set = password) := by
  by_contra harm
  obtain ⟨named, other⟩ := not_or.mp harm
  obtain ⟨index, below, found⟩ := List.mem_iff_getElem.mp member
  let env : Environment := { liveEnvironment (fun _ => false) with
    applies := fun call number => call = .chpasswdUser && number = index }
  let state := State.withAccounts username password [⟨name, none⟩] (.untouched sataDevices [])
  have plain := plain_of_mem_chpasswdRecords member
  have nameable : Nameable state.machine.target.accounts := by
    intro account only
    rw [List.mem_singleton.mp only]
    exact (isAccountName_iff name).mpr ⟨named, plain.colon, plain.user⟩
  have held := contained env state rfl rfl nameable
  have before : state.machine.target.accounts = [⟨name, none⟩] := rfl
  have after : accountsAfter env state = [⟨name, some set⟩] := by
    have none : ∀ accounts given,
        appliedRecords env .chpasswdRoot accounts "root" given = [] := by
      intro accounts given
      simp [appliedRecords, env, liveEnvironment]
    have one : ∀ accounts,
        appliedRecords env .chpasswdUser accounts username password = [some (name, set)] := by
      intro accounts
      have alone := filter_zipIdx_index 0 below
      rw [found] at alone
      rw [appliedRecords, if_neg (by simp [env, liveEnvironment]), ← alone]
      simp [env]
    rw [accountsAfter_eq]
    change applyRecords (applyRecords (createUser env state).2.machine.target.accounts
      (appliedRecords env .chpasswdUser _ username password)) (appliedRecords ..) = _
    rw [none, createUser_of_not_ok rfl state, one, before]
    simp [setPassword]
  by_cases mine : name = username ∨ name = "root"
  · have differs : set ≠ password := fun same => other ⟨mine, same⟩
    have only := held.only name mine
    rw [after, before, show state.options.newPassword = password from rfl] at only
    rcases only with unset | same
    · simp [passwordOf] at unset
    · have equal : set = password := by simpa [passwordOf] using same
      exact differs equal
  · have others := held.others
    obtain ⟨notUser, notRoot⟩ := not_or.mp mine
    rw [after, before, show state.options.newUsername = username from rfl] at others
    simp [isForeign, notUser, notRoot] at others

end Contained

/-- Whatever the account table and the outcome of the account commands, the script
sets no other password than those of the user and root, and these as given, if and
only if the two strings are harmless. -/
theorem contained_iff_harmless (username password : String) :
    (∀ (env : Environment) (state : State), state.options.newUsername = username →
      state.options.newPassword = password → Nameable state.machine.target.accounts →
      Contained env state) ↔ Harmless username password := by
  constructor
  · intro contained
    exact ⟨oneLine_of_contained contained, records_of_contained contained⟩
  · rintro harmless env state rfl rfl nameable
    exact contained_of_harmless nameable harmless

/-- A target with the accounts root and daemon. -/
def daemonTarget (username password : String) : State :=
  .withAccounts username password [⟨"root", none⟩, ⟨"daemon", none⟩] (.untouched sataDevices [])

theorem daemonTarget_nameable (username password : String) :
    Nameable (daemonTarget username password).machine.target.accounts := by
  have named : ∀ account ∈ [(⟨"root", none⟩ : Account), ⟨"daemon", none⟩],
      isAccountName account.name = true := by
    decide
  exact named

/-- A colon in the user name turns its front into the name of the account whose
password is set. -/
theorem colonName_not_contained :
    ¬ ∀ (username password : String) (env : Environment) (state : State),
      state.options.newUsername = username → state.options.newPassword = password →
      Nameable state.machine.target.accounts → Contained env state := by
  intro contained
  have held := (contained "daemon:x" "secret" (liveEnvironment fun _ => true)
    (daemonTarget "daemon:x" "secret") rfl rfl (daemonTarget_nameable _ _)).others
  revert held
  decide +kernel

/-- The default name and password are contained. -/
theorem defaultCredentials_contained :
    Contained (liveEnvironment fun _ => true) (daemonTarget "aqj" "aqj123") :=
  (contained_iff_harmless "aqj" "aqj123").mpr
    (harmless_of_plain ⟨by decide, by decide, by decide⟩) _ _ rfl rfl
    (daemonTarget_nameable _ _)

end AqjOs.Installer
