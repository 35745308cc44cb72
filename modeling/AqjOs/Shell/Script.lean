import Mathlib.Logic.Basic

/-!
# Scripts under `set -e`

A script is built from simple commands, commands whose failure is discarded
with `|| true`, tests, explicit exits and sequencing.  Commands are shallow:
each is a function that yields its status and the state it leaves behind, also
when it fails.  Under `set -e` the first failing plain command ends the script;
an interruption ends it at any command, guarded or not.
-/

namespace AqjOs.Shell

universe u

/-- How a simple command ends. -/
inductive Status
  | success
  | failure
  | interrupted
  deriving DecidableEq, Repr

/-- The status of a command of which only success or failure is observed. -/
def Status.ofBool (ok : Bool) : Status :=
  if ok then .success else .failure

@[simp]
theorem Status.ofBool_true : Status.ofBool true = .success :=
  rfl

@[simp]
theorem Status.ofBool_false : Status.ofBool false = .failure :=
  rfl

/-- A simple command: its status and the state it leaves behind. -/
abbrev Command (σ : Type u) := σ → Status × σ

namespace Command

variable {σ : Type u}

/-- A command that is not interrupted, with a Boolean status and an effect that
it has whether or not it succeeds. -/
def of (ok : σ → Bool) (effect : σ → σ) : Command σ :=
  fun state => (Status.ofBool (ok state), effect state)

/-- A command that takes effect when it succeeds and changes nothing otherwise. -/
def attempt (ok : Bool) (effect : σ → σ) : Command σ :=
  of (fun _ => ok) fun state => if ok then effect state else state

/-- A command that fails and changes nothing where its effect is undefined. -/
def ofOption (effect : σ → Option σ) : Command σ :=
  fun state =>
    match effect state with
    | some next => (.success, next)
    | none => (.failure, state)

theorem ofOption_snd (condition : σ → Prop) {effect : σ → Option σ} {state : σ}
    (before : condition state)
    (after : ∀ next, effect state = some next → condition next) :
    condition (ofOption effect state).2 := by
  unfold ofOption
  cases defined : effect state with
  | none => exact before
  | some next => exact after next defined

theorem ofOption_success {effect : σ → Option σ} {state : σ}
    (success : (ofOption effect state).1 = .success) :
    effect state = some (ofOption effect state).2 := by
  unfold ofOption at success ⊢
  cases defined : effect state with
  | none => simp [defined] at success
  | some next => rfl

/-- Several operands handled one after another, each also when an earlier one
has failed; one failure makes the whole command fail. -/
def each : List (Command σ) → Command σ
  | [], state => (.success, state)
  | first :: rest, state =>
      let handled := first state
      let others := each rest handled.2
      (if handled.1 = .success then others.1 else handled.1, others.2)

theorem each_success_cons {first : Command σ} {rest : List (Command σ)} {state : σ}
    (success : (each (first :: rest) state).1 = .success) :
    (first state).1 = .success ∧ (each rest (first state).2).1 = .success := by
  rw [each] at success
  by_cases handled : (first state).1 = .success
  · simp only [handled, if_true] at success
    exact ⟨handled, success⟩
  · simp only [if_neg handled] at success
    exact absurd success handled

theorem each_append (commands others : List (Command σ)) (state : σ) :
    each (commands ++ others) state =
      (if (each commands state).1 = .success then (each others (each commands state).2).1
        else (each commands state).1, (each others (each commands state).2).2) := by
  induction commands generalizing state with
  | nil => simp [each]
  | cons first rest inductionHypothesis =>
      simp only [List.cons_append, each, inductionHypothesis]
      by_cases success : (first state).1 = .success <;> simp [success]

/-- Operands that need nothing done leave the state as it is. -/
theorem each_unchanged {commands : List (Command σ)} {state : σ}
    (unchanged : ∀ command ∈ commands, command state = (.success, state)) :
    each commands state = (.success, state) := by
  induction commands with
  | nil => rfl
  | cons first rest inductionHypothesis =>
      rw [each, unchanged first (by simp)]
      exact inductionHypothesis fun command member => unchanged command (by simp [member])

theorem each_snd (condition : σ → Prop) {commands : List (Command σ)}
    (keeps : ∀ command ∈ commands, ∀ state, condition state → condition (command state).2)
    {state : σ} (before : condition state) : condition (each commands state).2 := by
  induction commands generalizing state with
  | nil => exact before
  | cons first rest inductionHypothesis =>
      have handled := keeps first (by simp) state before
      exact inductionHypothesis (fun command member => keeps command (by simp [member])) handled

/-- A condition holds after an attempt if it holds before and after the effect. -/
theorem attempt_snd (condition : σ → Prop) {ok : Bool} {effect : σ → σ} {state : σ}
    (before : condition state) (after : condition (effect state)) :
    condition (attempt ok effect state).2 := by
  simp only [attempt, of]
  split
  · exact after
  · exact before

end Command

/-- Script text over the state type `σ`. -/
inductive Script (σ : Type u)
  | skip
  | run (command : Command σ)
  | tolerate (command : Command σ)
  | exit (code : Nat)
  | seq (first second : Script σ)
  | ite (test : σ → Bool) (yes no : Script σ)

/-- A part of a script either runs on to what follows it or ends the script. -/
inductive Outcome (σ : Type u)
  | continues (state : σ)
  | exited (code : Nat) (state : σ)

namespace Outcome

variable {σ : Type u}

/-- The state left behind, whether or not the script has ended. -/
def state : Outcome σ → σ
  | continues state => state
  | exited _ state => state

/-- The exit status of a script that ends here; running off the end of the
text is status 0. -/
def code : Outcome σ → Nat
  | continues _ => 0
  | exited code _ => code

/-- Whether the script goes on. -/
def running : Outcome σ → Bool
  | continues _ => true
  | exited _ _ => false

/-- What follows a part of a script is executed only if that part runs on. -/
def bind : Outcome σ → (σ → Outcome σ) → Outcome σ
  | continues state, rest => rest state
  | exited code state, _ => exited code state

@[simp]
theorem bind_continues (state : σ) (rest : σ → Outcome σ) :
    (continues state).bind rest = rest state :=
  rfl

@[simp]
theorem bind_exited (code : Nat) (state : σ) (rest : σ → Outcome σ) :
    (exited code state).bind rest = exited code state :=
  rfl

@[simp]
theorem bind_ite (condition : Prop) [Decidable condition] (yes no : Outcome σ)
    (rest : σ → Outcome σ) :
    (if condition then yes else no).bind rest =
      if condition then yes.bind rest else no.bind rest := by
  split <;> rfl

@[simp]
theorem running_continues (state : σ) : (continues state).running = true :=
  rfl

@[simp]
theorem running_exited (code : Nat) (state : σ) : (exited code state).running = false :=
  rfl

theorem running_ite (condition : Prop) [Decidable condition] (yes no : Outcome σ) :
    (if condition then yes else no).running =
      if condition then yes.running else no.running := by
  split <;> rfl

@[simp]
theorem state_continues (state : σ) : (continues state).state = state :=
  rfl

@[simp]
theorem state_exited (code : Nat) (state : σ) : (exited code state).state = state :=
  rfl

@[simp]
theorem code_continues (state : σ) : (continues state).code = 0 :=
  rfl

@[simp]
theorem code_exited (code : Nat) (state : σ) : (exited code state).code = code :=
  rfl

theorem eq_continues_of_running {outcome : Outcome σ} (runs : outcome.running = true) :
    outcome = .continues outcome.state := by
  cases outcome with
  | continues state => rfl
  | exited code state => contradiction

end Outcome

namespace Script

variable {σ : Type u}

/-- The commands of a block in the order of the text. -/
def block : List (Script σ) → Script σ
  | [] => skip
  | first :: rest => seq first (block rest)

/-- `if test; then body; fi`. -/
def when (test : σ → Bool) (body : Script σ) : Script σ :=
  ite test body skip

/-- Execute a script under `set -e`. -/
def exec : Script σ → σ → Outcome σ
  | skip, state => .continues state
  | run command, state =>
      match command state with
      | (.success, next) => .continues next
      | (.failure, next) => .exited 1 next
      | (.interrupted, next) => .exited 130 next
  | tolerate command, state =>
      match command state with
      | (.interrupted, next) => .exited 130 next
      | (_, next) => .continues next
  | exit code, state => .exited code state
  | seq first second, state => (exec first state).bind (exec second)
  | ite test yes no, state => if test state then exec yes state else exec no state

@[simp]
theorem exec_skip (state : σ) : exec skip state = .continues state :=
  rfl

@[simp]
theorem exec_exit (code : Nat) (state : σ) : exec (exit code) state = .exited code state :=
  rfl

theorem exec_seq (first second : Script σ) (state : σ) :
    exec (seq first second) state = (exec first state).bind (exec second) :=
  rfl

theorem exec_seq_of_continues {first second : Script σ} {state next : σ}
    (continued : exec first state = .continues next) :
    exec (seq first second) state = exec second next := by
  rw [exec_seq, continued, Outcome.bind_continues]

theorem exec_seq_assoc (first second third : Script σ) (state : σ) :
    exec (seq (seq first second) third) state = exec (seq first (seq second third)) state := by
  rw [exec_seq, exec_seq, exec_seq]
  cases exec first state with
  | continues next => rfl
  | exited code last => rfl

theorem exec_seq_congr {first second other : Script σ}
    (same : ∀ state, exec second state = exec other state) (state : σ) :
    exec (seq first second) state = exec (seq first other) state := by
  rw [exec_seq, exec_seq]
  cases exec first state with
  | continues next => exact same next
  | exited code last => rfl

/-- What follows a part that ends the script is not executed. -/
theorem exec_seq_of_stopped {first second : Script σ} {state : σ}
    (stopped : (exec first state).running = false) :
    exec (seq first second) state = exec first state := by
  rw [exec_seq]
  cases outcome : exec first state with
  | continues next =>
      rw [outcome, Outcome.running_continues] at stopped
      contradiction
  | exited code last => rfl

theorem exec_seq_eq_continues {first second : Script σ} {state last : σ} :
    exec (seq first second) state = .continues last ↔
      ∃ middle, exec first state = .continues middle ∧ exec second middle = .continues last := by
  rw [exec_seq]
  cases exec first state with
  | continues middle => simp
  | exited code stopped => simp

@[simp]
theorem block_nil : block ([] : List (Script σ)) = skip :=
  rfl

@[simp]
theorem block_cons (first : Script σ) (rest : List (Script σ)) :
    block (first :: rest) = seq first (block rest) :=
  rfl

@[simp]
theorem exec_ite (test : σ → Bool) (yes no : Script σ) (state : σ) :
    exec (ite test yes no) state = if test state then exec yes state else exec no state :=
  rfl

@[simp]
theorem exec_when (test : σ → Bool) (body : Script σ) (state : σ) :
    exec (when test body) state = if test state then exec body state else .continues state :=
  rfl

/-- A command that ends with a Boolean status. -/
theorem exec_run_ofBool {command : Command σ} {ok : Bool} {state next : σ}
    (ends : command state = (Status.ofBool ok, next)) :
    exec (run command) state = if ok then .continues next else .exited 1 next := by
  cases ok <;> simp [exec, ends]

theorem exec_run_of (ok : σ → Bool) (effect : σ → σ) (state : σ) :
    exec (run (.of ok effect)) state =
      if ok state then .continues (effect state) else .exited 1 (effect state) := by
  cases holds : ok state <;> simp [exec, Command.of, holds]

theorem exec_run_of_eq_continues {ok : σ → Bool} {effect : σ → σ} {state next : σ} :
    exec (run (.of ok effect)) state = .continues next ↔
      ok state = true ∧ effect state = next := by
  rw [exec_run_of]
  cases ok state <;> simp

/-- Behind a gate the test has failed. -/
theorem exec_gate_eq_continues {test : σ → Bool} {code : Nat} {state next : σ} :
    exec (when test (exit code)) state = .continues next ↔ test state = false ∧ state = next := by
  rw [exec_when]
  cases test state <;> simp

/-- A tolerated command that is not interrupted runs on. -/
theorem exec_tolerate_of (ok : σ → Bool) (effect : σ → σ) (state : σ) :
    exec (tolerate (.of ok effect)) state = .continues (effect state) := by
  cases holds : ok state <;> simp [exec, Command.of, holds]

theorem exec_run_attempt (ok : Bool) (effect : σ → σ) (state : σ) :
    exec (run (.attempt ok effect)) state =
      if ok then .continues (effect state) else .exited 1 state := by
  cases ok <;> simp [Command.attempt, exec_run_of]

theorem exec_tolerate_attempt (ok : Bool) (effect : σ → σ) (state : σ) :
    exec (tolerate (.attempt ok effect)) state =
      .continues (if ok then effect state else state) := by
  rw [Command.attempt, exec_tolerate_of]

/-- A script run as a command of another one: its exit status decides. -/
def call (script : Script σ) : Command σ :=
  fun state => (Status.ofBool ((exec script state).code = 0), (exec script state).state)

/-- A called script that lets its caller go on has exited with status 0. -/
theorem exec_run_call (script : Script σ) (state : σ) :
    exec (run (call script)) state =
      if (exec script state).code = 0 then .continues (exec script state).state
      else .exited 1 (exec script state).state := by
  by_cases zero : (exec script state).code = 0 <;> simp [exec, call, zero]

end Script

end AqjOs.Shell
