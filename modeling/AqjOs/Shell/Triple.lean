import AqjOs.Shell.Script

/-!
# Pre- and postconditions of scripts

A triple gives one postcondition for running on to the end of a script and one
for leaving it early.  Under `set -e` the second matters as much as the first:
it is what holds after every prefix that a failing command can cut off.
-/

namespace AqjOs.Shell

universe u

namespace Script

variable {σ : Type u}

/-- From a state satisfying `pre`, the script either runs on in a state
satisfying `post` or ends in a state satisfying `left`. -/
def Triple (pre : σ → Prop) (script : Script σ) (post left : σ → Prop) : Prop :=
  ∀ state, pre state →
    match exec script state with
    | .continues next => post next
    | .exited _ next => left next

/-- The only way to run on is the first postcondition. -/
theorem Triple.continues {pre post left : σ → Prop} {script : Script σ}
    (triple : Triple pre script post left) {state next : σ} (holds : pre state)
    (continued : exec script state = .continues next) : post next := by
  have result := triple state holds
  rwa [continued] at result

/-- A triple with equal postconditions speaks about every end of the script. -/
theorem Triple.state {pre post : σ → Prop} {script : Script σ}
    (triple : Triple pre script post post) (state : σ) (holds : pre state) :
    post (exec script state).state := by
  have result := triple state holds
  cases ended : exec script state with
  | continues next => simpa [ended] using result
  | exited code next => simpa [ended] using result

theorem Triple.mono {pre pre' post post' left left' : σ → Prop} {script : Script σ}
    (triple : Triple pre script post left) (preLe : ∀ state, pre' state → pre state)
    (postLe : ∀ state, post state → post' state)
    (leftLe : ∀ state, left state → left' state) : Triple pre' script post' left' := by
  intro state holds
  have result := triple state (preLe state holds)
  cases ended : exec script state with
  | continues next =>
      simp only [ended] at result ⊢
      exact postLe next result
  | exited code next =>
      simp only [ended] at result ⊢
      exact leftLe next result

/-- Two triples of one script hold together. -/
theorem Triple.and {pre pre' post post' left left' : σ → Prop} {script : Script σ}
    (first : Triple pre script post left) (second : Triple pre' script post' left') :
    Triple (fun state => pre state ∧ pre' state) script (fun state => post state ∧ post' state)
      fun state => left state ∧ left' state := by
  rintro state ⟨holds, holds'⟩
  have firstResult := first state holds
  have secondResult := second state holds'
  cases ended : exec script state with
  | continues next =>
      simp only [ended] at firstResult secondResult
      exact ⟨firstResult, secondResult⟩
  | exited code next =>
      simp only [ended] at firstResult secondResult
      exact ⟨firstResult, secondResult⟩

/-- What an early end leaves behind may be forgotten. -/
theorem Triple.forget {pre post left : σ → Prop} {script : Script σ}
    (triple : Triple pre script post left) : Triple pre script post fun _ => True :=
  triple.mono (fun _ holds => holds) (fun _ holds => holds) fun _ _ => trivial

/-- Nothing is known of a script about which nothing is asked. -/
theorem triple_true {pre : σ → Prop} (script : Script σ) :
    Triple pre script (fun _ => True) fun _ => True := by
  intro state _
  cases exec script state <;> trivial

theorem triple_skip {pre left : σ → Prop} : Triple pre skip pre left :=
  fun _ holds => holds

theorem triple_exit {pre post : σ → Prop} {code : Nat} : Triple pre (exit code) post pre :=
  fun _ holds => holds

theorem triple_run {pre post left : σ → Prop} {command : Command σ}
    (succeeds : ∀ state, pre state → (command state).1 = .success → post (command state).2)
    (fails : ∀ state, pre state → (command state).1 ≠ .success → left (command state).2) :
    Triple pre (run command) post left := by
  intro state holds
  have onSuccess := succeeds state holds
  have onFailure := fails state holds
  rcases ended : command state with ⟨status, next⟩
  simp only [ended] at onSuccess onFailure
  cases status with
  | success => simpa [exec, ended] using onSuccess rfl
  | failure => simpa [exec, ended] using onFailure (by simp)
  | interrupted => simpa [exec, ended] using onFailure (by simp)

/-- A plain command whose effect establishes the same condition on both ways. -/
theorem triple_run_same {pre post : σ → Prop} {command : Command σ}
    (effect : ∀ state, pre state → post (command state).2) :
    Triple pre (run command) post post :=
  triple_run (fun state holds _ => effect state holds) fun state holds _ => effect state holds

theorem triple_run_ofOption {pre post : σ → Prop} {effect : σ → Option σ}
    (defined : ∀ state next, pre state → effect state = some next → post next) :
    Triple pre (run (.ofOption effect)) post fun _ => True := by
  apply triple_run
  · intro state holds success
    unfold Command.ofOption at success ⊢
    cases result : effect state with
    | none => simp [result] at success
    | some next => simpa [result] using defined state next holds result
  · intro state _ _
    trivial

theorem triple_tolerate {pre post : σ → Prop} {command : Command σ}
    (effect : ∀ state, pre state → post (command state).2) :
    Triple pre (tolerate command) post post := by
  intro state holds
  have result := effect state holds
  rcases ended : command state with ⟨status, next⟩
  rw [ended] at result
  cases status <;> simpa [exec, ended] using result

/-- A tolerated command ends the script only when it is interrupted. -/
theorem triple_tolerate_interrupted {pre post left : σ → Prop} {command : Command σ}
    (goesOn : ∀ state, pre state → (command state).1 ≠ .interrupted → post (command state).2)
    (stops : ∀ state, pre state → (command state).1 = .interrupted → left (command state).2) :
    Triple pre (tolerate command) post left := by
  intro state holds
  have onward := goesOn state holds
  have stopped := stops state holds
  rcases ended : command state with ⟨status, next⟩
  simp only [ended] at onward stopped
  cases status with
  | success => simpa [exec, ended] using onward (by simp)
  | failure => simpa [exec, ended] using onward (by simp)
  | interrupted => simpa [exec, ended] using stopped rfl

theorem triple_seq {pre middle post left : σ → Prop} {first second : Script σ}
    (firstTriple : Triple pre first middle left)
    (secondTriple : Triple middle second post left) :
    Triple pre (seq first second) post left := by
  intro state holds
  have firstResult := firstTriple state holds
  rw [exec_seq]
  cases ended : exec first state with
  | continues next =>
      simp only [ended] at firstResult
      exact secondTriple next firstResult
  | exited code next =>
      simp only [ended] at firstResult
      exact firstResult

theorem triple_ite {pre post left : σ → Prop} {test : σ → Bool} {yes no : Script σ}
    (yesTriple : Triple (fun state => pre state ∧ test state = true) yes post left)
    (noTriple : Triple (fun state => pre state ∧ test state = false) no post left) :
    Triple pre (ite test yes no) post left := by
  intro state holds
  rw [exec_ite]
  cases tested : test state with
  | true => simpa [tested] using yesTriple state ⟨holds, tested⟩
  | false => simpa [tested] using noTriple state ⟨holds, tested⟩

theorem triple_when {pre post left : σ → Prop} {test : σ → Bool} {body : Script σ}
    (bodyTriple : Triple (fun state => pre state ∧ test state = true) body post left)
    (skipped : ∀ state, pre state → test state = false → post state) :
    Triple pre (when test body) post left :=
  triple_ite bodyTriple fun state holds => skipped state holds.1 holds.2

/-- A gate: running on means that the test has failed. -/
theorem triple_gate {pre : σ → Prop} {test : σ → Bool} {code : Nat} :
    Triple pre (when test (exit code)) (fun state => pre state ∧ test state = false) pre :=
  triple_when (triple_exit.mono (fun _ holds => holds) (fun _ none => none)
    fun _ holds => holds.1) fun _ holds failed => ⟨holds, failed⟩

/-- A condition is preserved by a script when every command in it preserves it. -/
def Preserves (invariant : σ → Prop) : Script σ → Prop
  | skip => True
  | run command => ∀ state, invariant state → invariant (command state).2
  | tolerate command => ∀ state, invariant state → invariant (command state).2
  | exit _ => True
  | seq first second => Preserves invariant first ∧ Preserves invariant second
  | ite _ yes no => Preserves invariant yes ∧ Preserves invariant no

theorem preserves_block {invariant : σ → Prop} {scripts : List (Script σ)}
    (preserved : ∀ script ∈ scripts, Preserves invariant script) :
    Preserves invariant (block scripts) := by
  induction scripts with
  | nil => trivial
  | cons first rest inductionHypothesis =>
      constructor
      · exact preserved first (by simp)
      · exact inductionHypothesis fun script member => preserved script (by simp [member])

/-- A preserved condition holds at every end of the script. -/
theorem Preserves.triple {invariant : σ → Prop} :
    {script : Script σ} → Preserves invariant script →
      Triple invariant script invariant invariant
  | skip, _ => triple_skip
  | run _, preserved => triple_run_same preserved
  | tolerate _, preserved => triple_tolerate preserved
  | exit _, _ => triple_exit
  | seq _ _, preserved => triple_seq preserved.1.triple preserved.2.triple
  | ite _ _ _, preserved =>
      triple_ite
        (preserved.1.triple.mono (fun _ holds => holds.1) (fun _ holds => holds)
          fun _ holds => holds)
        (preserved.2.triple.mono (fun _ holds => holds.1) (fun _ holds => holds)
          fun _ holds => holds)

/-- Every explicit exit of the script reports an error. -/
def ExitsNonzero : Script σ → Prop
  | skip => True
  | run _ => True
  | tolerate _ => True
  | exit code => code ≠ 0
  | seq first second => ExitsNonzero first ∧ ExitsNonzero second
  | ite _ yes no => ExitsNonzero yes ∧ ExitsNonzero no

/-- A script whose explicit exits report errors has status 0 only at its end. -/
theorem ExitsNonzero.continues {script : Script σ} (nonzero : ExitsNonzero script) {state : σ}
    (success : (exec script state).code = 0) : ∃ next, exec script state = .continues next := by
  induction script generalizing state with
  | skip => exact ⟨state, rfl⟩
  | run command =>
      rcases ended : command state with ⟨status, next⟩
      cases status with
      | success => exact ⟨next, by simp [exec, ended]⟩
      | failure => simp [exec, ended] at success
      | interrupted => simp [exec, ended] at success
  | tolerate command =>
      rcases ended : command state with ⟨status, next⟩
      cases status with
      | success => exact ⟨next, by simp [exec, ended]⟩
      | failure => exact ⟨next, by simp [exec, ended]⟩
      | interrupted => simp [exec, ended] at success
  | exit code => exact absurd success nonzero
  | seq first second firstHypothesis secondHypothesis =>
      rw [exec_seq] at success ⊢
      cases ended : exec first state with
      | continues middle =>
          rw [ended, Outcome.bind_continues] at success
          obtain ⟨next, continued⟩ := secondHypothesis nonzero.2 success
          exact ⟨next, by rw [Outcome.bind_continues, continued]⟩
      | exited code stopped =>
          have failed : (exec first state).code = 0 := by
            rw [ended] at success ⊢
            exact success
          obtain ⟨next, continued⟩ := firstHypothesis nonzero.1 failed
          rw [ended] at continued
          contradiction
  | ite test yes no yesHypothesis noHypothesis =>
      rw [exec_ite] at success ⊢
      cases tested : test state with
      | true =>
          rw [tested, if_pos rfl] at success
          exact yesHypothesis nonzero.1 success
      | false =>
          rw [tested] at success
          exact noHypothesis nonzero.2 success

end Script

end AqjOs.Shell
