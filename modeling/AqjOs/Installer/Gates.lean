import AqjOs.Installer.Confinement
import AqjOs.Installer.OptionPosition
import AqjOs.Shell.Throughout

/-!
# What the gates of `installer.sh` let through

The reasons to stop are stated over the arguments, the standard input, the user
and the device table alone.  A run that is stopped has the machine of its start
after every command it executed; a run that goes on to the first command that
changes the machine has passed each of the checks.
-/

namespace AqjOs.Installer

open AqjOs.Shell

/-- The target as the mode chooses it: from the arguments, or from the first
line of the input, which may be missing. -/
def chosenTarget (argv stdin : List String) : Option String :=
  if (Options.default.reading argv).nonInteractive then
    some (Options.default.reading argv).targetDisk
  else
    stdin.head?.map readValue

/-- The operator's answer, the second line of the input. -/
def answer (stdin : List String) : Option String :=
  stdin[1]?.map readValue

/-- The reasons for which a run stops at the gates. -/
inductive Refused (env : Environment) (argv stdin : List String) (devices : DeviceTable) : Prop
  | valueMissing (missing : ¬ ValuesGiven argv)
  | notRoot (uid : env.uid ≠ 0)
  | noTarget (invalid : ∀ target, chosenTarget argv stdin = some target →
      target = "" ∨ devices.isBlock target = false)
  | declined (asked : occurrences argv "--non-interactive" = [])
      (yesLess : answer stdin ≠ some "y") (capitalLess : answer stdin ≠ some "Y")

/-- What a run that passes the gates has been granted. -/
structure Granted (env : Environment) (argv stdin : List String) (devices : DeviceTable)
    (target : String) : Prop where
  given : ValuesGiven argv
  root : env.uid = 0
  chosen : chosenTarget argv stdin = some target
  named : target ≠ ""
  block : devices.isBlock target = true
  consent : occurrences argv "--non-interactive" ≠ [] ∨
    answer stdin = some "y" ∨ answer stdin = some "Y"

theorem Granted.not_refused {env : Environment} {argv stdin : List String}
    {devices : DeviceTable} {target : String}
    (granted : Granted env argv stdin devices target) :
    ¬ Refused env argv stdin devices := by
  intro refused
  cases refused with
  | valueMissing missing => exact missing granted.given
  | notRoot uid => exact uid granted.root
  | noTarget invalid =>
      rcases invalid target granted.chosen with empty | noBlock
      · exact granted.named empty
      · rw [granted.block] at noBlock
        cases noBlock
  | declined asked yesLess capitalLess =>
      rcases granted.consent with unasked | yes | capital
      · exact unasked asked
      · exact yesLess yes
      · exact capitalLess capital

theorem targetInvalid_eq_false_iff {state : State} :
    targetInvalid state = false ↔
      state.options.targetDisk ≠ "" ∧
        state.machine.devices.isBlock state.options.targetDisk = true := by
  simp [targetInvalid]

theorem readLine_continues {store : String → State → State} {state next : State}
    (continued : (Script.run (readLine store)).exec state = .continues next) :
    ∃ line rest, state.stdin = line :: rest ∧
      next = store (readValue line) { state with stdin := rest } := by
  obtain ⟨present, stored⟩ := Script.exec_run_of_eq_continues.mp continued
  cases input : state.stdin with
  | nil =>
      rw [input] at present
      cases present
  | cons line rest =>
      rw [input] at stored
      exact ⟨line, rest, rfl, stored.symm⟩

/-- A prompt or a listing leaves the state as it is. -/
theorem output_continues {ok : Bool} {state next : State}
    (continued : (Script.run (.attempt ok id)).exec state = .continues next) : next = state := by
  obtain ⟨-, printed⟩ := Script.exec_run_of_eq_continues.mp continued
  cases ok <;> exact printed.symm

/-- A dialogue that runs on has read a block device and a yes. -/
theorem interactive_continues {env : Environment} {state admitted : State}
    (continued : (interactive env).exec state = .continues admitted) :
    ∃ disk confirmation rest, state.stdin = disk :: confirmation :: rest ∧
      admitted.options.targetDisk = readValue disk ∧ readValue disk ≠ "" ∧
      state.machine.devices.isBlock (readValue disk) = true ∧
      (readValue confirmation = "y" ∨ readValue confirmation = "Y") := by
  simp only [interactive, Script.block, Script.exec_seq_eq_continues,
    Script.exec_gate_eq_continues] at continued
  obtain ⟨listed, listing, chosen, reading, checked, ⟨valid, rfl⟩, prompted, prompt, confirmed,
    confirming, _, ⟨agreed, rfl⟩, ended⟩ := continued
  have listedEq : listed = state := by
    rw [Script.exec_when] at listing
    split at listing
    · exact output_continues listing
    · cases listing
      rfl
  obtain ⟨disk, others, input, rfl⟩ := readLine_continues reading
  obtain rfl := output_continues prompt
  obtain ⟨confirmation, rest, remaining, rfl⟩ := readLine_continues confirming
  obtain ⟨named, block⟩ := targetInvalid_eq_false_iff.mp valid
  rw [listedEq] at input block
  cases ended
  refine ⟨disk, confirmation, rest, ?_, rfl, named, block, ?_⟩
  · rw [input]
    exact congrArg (disk :: ·) remaining
  · by_contra neither
    rw [not_or] at neither
    rw [decide_eq_false_iff_not] at agreed
    exact agreed neither

theorem parse_continues {argv : List String} {state next : State}
    (continued : (Script.run (parse argv)).exec state = .continues next) :
    ValuesGiven argv ∧ next = { state with options := state.options.reading argv } := by
  obtain ⟨parsed, stored⟩ := Script.exec_run_of_eq_continues.mp continued
  by_cases given : ValuesGiven argv
  · rw [parseArguments_of_valuesGiven given] at stored
    exact ⟨given, stored.symm⟩
  · rw [parseArguments_of_not_valuesGiven given] at parsed
    cases parsed

theorem reading_nonInteractive_iff {argv : List String} :
    (Options.default.reading argv).nonInteractive = true ↔
      occurrences argv "--non-interactive" ≠ [] := by
  simp [Options.reading, Options.default]

/-- A run that passes the gates has been granted its target. -/
theorem gates_continues {env : Environment} {argv stdin : List String} {machine : Machine}
    {admitted : State}
    (continued : (gates env argv).exec (.start stdin machine) = .continues admitted) :
    Granted env argv stdin machine.devices admitted.options.targetDisk := by
  simp only [gates, Script.block, Script.exec_seq_eq_continues, Script.exec_gate_eq_continues]
    at continued
  obtain ⟨parsed, parsing, _, ⟨root, rfl⟩, checked, checking, ended⟩ := continued
  obtain ⟨given, rfl⟩ := parse_continues parsing
  rw [decide_eq_false_iff_not, not_not] at root
  cases ended
  rw [Script.exec_ite] at checking
  cases mode : (Options.default.reading argv).nonInteractive with
  | true =>
      simp only [State.start, mode, Bool.not_true, Bool.false_eq_true, if_false,
        Script.exec_gate_eq_continues] at checking
      obtain ⟨valid, rfl⟩ := checking
      obtain ⟨named, block⟩ := targetInvalid_eq_false_iff.mp valid
      refine ⟨given, root, ?_, named, block, .inl (reading_nonInteractive_iff.mp mode)⟩
      rw [chosenTarget, if_pos mode]
  | false =>
      simp only [State.start, mode, Bool.not_false, if_true] at checking
      obtain ⟨disk, confirmation, rest, input, targetEq, named, block, agreed⟩ :=
        interactive_continues checking
      simp only at input
      rw [targetEq]
      refine ⟨given, root, ?_, named, block, .inr ?_⟩
      · rw [chosenTarget, mode, input]
        rfl
      · rw [answer, input]
        exact agreed.imp (congrArg some) (congrArg some)

/-- Up to the gates every command leaves the machine as it was. -/
theorem gates_visited (env : Environment) (argv stdin : List String) (machine : Machine) :
    ∀ reached ∈ (gates env argv).visited (.start stdin machine), reached.machine = machine :=
  ((gates_machine env argv machine).throughout (fun _ same => same)
    (.start stdin machine) rfl).1

/-- A run that is stopped at the gates ends with the machine it began with. -/
theorem installer_of_stopped {env : Environment} {argv stdin : List String} {machine : Machine}
    (stopped : ¬ ∃ admitted,
      (gates env argv).exec (.start stdin machine) = .continues admitted) :
    (∃ code last, (installer env argv).exec (.start stdin machine) = .exited code last ∧
      last.machine = machine) ∧
    ∀ reached ∈ (installer env argv).visited (.start stdin machine),
      reached.machine = machine := by
  have sameMachine := (gates_machine env argv machine).triple.state (.start stdin machine) rfl
  rw [installer, Script.exec_seq, Script.visited]
  cases gated : (gates env argv).exec (.start stdin machine) with
  | continues admitted => exact absurd ⟨admitted, gated⟩ stopped
  | exited code last =>
      rw [gated] at sameMachine
      constructor
      · exact ⟨code, last, rfl, sameMachine⟩
      · rw [List.append_nil]
        exact gates_visited env argv stdin machine

/-- A run that is refused has changed nothing, at its end and after every
command.  A run that reaches the first command that changes the machine is one
by root on a block device, with `--non-interactive` in option position or with
the operator's yes; and the machine never differs in a run that does not. -/
theorem unchanged_before_gates (env : Environment) (argv stdin : List String)
    (machine : Machine) :
    (Refused env argv stdin machine.devices →
      (∃ code last, (installer env argv).exec (.start stdin machine) = .exited code last ∧
        last.machine = machine) ∧
      ∀ reached ∈ (installer env argv).visited (.start stdin machine),
        reached.machine = machine) ∧
    (∀ admitted, (gates env argv).exec (.start stdin machine) = .continues admitted →
      env.uid = 0 ∧ machine.devices.isBlock admitted.options.targetDisk = true ∧
        ((∃ place, optionPosition argv place = true ∧
            argv[place]? = some "--non-interactive") ∨
          answer stdin = some "y" ∨ answer stdin = some "Y")) ∧
    ∀ reached ∈ (installer env argv).visited (.start stdin machine),
      reached.machine ≠ machine →
        ∃ admitted, (gates env argv).exec (.start stdin machine) = .continues admitted := by
  refine ⟨?_, ?_, ?_⟩
  · intro refused
    apply installer_of_stopped
    rintro ⟨admitted, continued⟩
    exact (gates_continues continued).not_refused refused
  · intro admitted continued
    have granted := gates_continues continued
    refine ⟨granted.root, granted.block, granted.consent.imp_left ?_⟩
    intro present
    obtain ⟨place, member⟩ := List.exists_mem_of_ne_nil _ present
    obtain ⟨-, held⟩ := List.mem_filter.mp member
    rw [Bool.and_eq_true, beq_iff_eq] at held
    exact ⟨place, held⟩
  · intro reached member changed
    by_contra stopped
    exact changed ((installer_of_stopped stopped).2 reached member)

/-- A `--non-interactive` that is the value of `--disk` does not skip the
question, and a no leaves the disk alone. -/
theorem swallowedMode_unchanged :
    optionPosition ["--disk", "--non-interactive"] 1 = false ∧
      ∀ reached ∈ (installer (bareEnvironment true) ["--disk", "--non-interactive"]).visited
        (.start ["/dev/sda", "n"] (.untouched sataDevices [])),
        reached.machine = .untouched sataDevices [] := by
  constructor
  · decide
  · have refused : Refused (bareEnvironment true) ["--disk", "--non-interactive"]
        ["/dev/sda", "n"] sataDevices :=
      .declined (by decide) (by decide) (by decide)
    exact ((unchanged_before_gates (bareEnvironment true) ["--disk", "--non-interactive"]
      ["/dev/sda", "n"] (.untouched sataDevices [])).1 refused).2

end AqjOs.Installer
