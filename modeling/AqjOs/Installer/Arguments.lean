import Mathlib.Data.List.Basic

/-!
# The argument loop of `installer.sh`

The loop consumes the arguments from the left under `set -eu`.  An option that
takes a value reads `$2`, so that its absence ends the script; a token that is
no option is dropped.
-/

namespace AqjOs.Installer

/-- The variables set by the argument loop. -/
structure Options where
  nonInteractive : Bool
  targetDisk : String
  newHostname : String
  newUsername : String
  newPassword : String
  deriving DecidableEq, Repr

/-- The values before the first argument is read. -/
def Options.default : Options where
  nonInteractive := false
  targetDisk := ""
  newHostname := "aqj-os"
  newUsername := "aqj"
  newPassword := "aqj123"

/-- The options that take a value. -/
inductive Field
  | disk
  | hostname
  | username
  | password
  deriving DecidableEq, Repr

/-- The spelling of an option. -/
def Field.flag : Field → String
  | disk => "--disk"
  | hostname => "--hostname"
  | username => "--username"
  | password => "--password"

/-- The option that a token spells, as the `case` statement finds it. -/
def Field.ofToken (token : String) : Option Field :=
  if token = "--disk" then some disk
  else if token = "--hostname" then some hostname
  else if token = "--username" then some username
  else if token = "--password" then some password
  else none

/-- Assign the variable of an option. -/
def Options.set (options : Options) (value : String) : Field → Options
  | .disk => { options with targetDisk := value }
  | .hostname => { options with newHostname := value }
  | .username => { options with newUsername := value }
  | .password => { options with newPassword := value }

/-- The argument loop; `none` when `$2` is unset. -/
def parseArguments : Options → List String → Option Options
  | options, [] => some options
  | options, [token] =>
      if token = "--non-interactive" then some { options with nonInteractive := true }
      else
        match Field.ofToken token with
        | some _ => none
        | none => some options
  | options, token :: value :: rest =>
      if token = "--non-interactive" then
        parseArguments { options with nonInteractive := true } (value :: rest)
      else
        match Field.ofToken token with
        | some field => parseArguments (options.set value field) rest
        | none => parseArguments options (value :: rest)

@[simp]
theorem Field.ofToken_flag (field : Field) : Field.ofToken field.flag = some field := by
  cases field <;> decide

theorem Field.flag_ne_nonInteractive (field : Field) : field.flag ≠ "--non-interactive" := by
  cases field <;> decide

@[simp]
theorem parseArguments_nil (options : Options) : parseArguments options [] = some options :=
  rfl

/-- An option followed by a token consumes it as its value, whatever it spells. -/
@[simp]
theorem parseArguments_flag (options : Options) (field : Field) (value : String)
    (rest : List String) :
    parseArguments options (field.flag :: value :: rest) =
      parseArguments (options.set value field) rest := by
  rw [parseArguments, if_neg field.flag_ne_nonInteractive, Field.ofToken_flag]

@[simp]
theorem parseArguments_nonInteractive (options : Options) (rest : List String) :
    parseArguments options ("--non-interactive" :: rest) =
      parseArguments { options with nonInteractive := true } rest := by
  cases rest <;> simp [parseArguments]

/-- The command line that `InstallStep.run_installation` builds, without the
program name. -/
def installCommand (disk hostname username password : String) : List String :=
  ["--non-interactive", "--disk", disk, "--hostname", hostname, "--username", username,
    "--password", password]

/-- The loop reads back the four values of the wizard's command line, whatever
strings they are. -/
theorem parseArguments_installCommand (disk hostname username password : String) :
    parseArguments .default (installCommand disk hostname username password) =
      some ⟨true, disk, hostname, username, password⟩ := by
  have parsed : parseArguments Options.default
      ["--non-interactive", Field.disk.flag, disk, Field.hostname.flag, hostname,
        Field.username.flag, username, Field.password.flag, password] =
      some ⟨true, disk, hostname, username, password⟩ := by
    rw [parseArguments_nonInteractive, parseArguments_flag, parseArguments_flag,
      parseArguments_flag, parseArguments_flag, parseArguments_nil]
    rfl
  exact parsed

end AqjOs.Installer
