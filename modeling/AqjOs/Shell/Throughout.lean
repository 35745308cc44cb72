import AqjOs.Shell.Triple

/-!
# What holds after every command of a script

A triple speaks about the ends of a script.  `Throughout` also speaks about the
states in between: it asks for a condition after every command that is executed,
so that nothing can be done and undone unseen.
-/

namespace AqjOs.Shell

universe u

namespace Script

variable {σ : Type u}

/-- The states after each command that is executed, in their order. -/
def visited : Script σ → σ → List σ
  | skip, _ => []
  | run command, state => [(command state).2]
  | tolerate command, state => [(command state).2]
  | exit _, _ => []
  | seq first second, state =>
      visited first state ++
        match exec first state with
        | .continues next => visited second next
        | .exited _ _ => []
  | ite test yes no, state => if test state then visited yes state else visited no state

/-- A script ends where its last command left it, or where it began. -/
theorem state_exec (script : Script σ) (state : σ) :
    (exec script state).state = state ∨ (exec script state).state ∈ visited script state := by
  induction script generalizing state with
  | skip => exact .inl rfl
  | run command =>
      right
      rcases ended : command state with ⟨status, next⟩
      cases status <;> simp [exec, visited, ended]
  | tolerate command =>
      right
      rcases ended : command state with ⟨status, next⟩
      cases status <;> simp [exec, visited, ended]
  | exit code => exact .inl rfl
  | seq first second firstHypothesis secondHypothesis =>
      have firstEnd := firstHypothesis state
      rw [exec_seq, visited]
      cases ended : exec first state with
      | exited code next =>
          rw [ended] at firstEnd
          simpa using firstEnd
      | continues next =>
          rw [ended] at firstEnd
          have secondEnd := secondHypothesis next
          simp only [Outcome.bind_continues, Outcome.state_continues, List.mem_append] at firstEnd ⊢
          rcases secondEnd with same | member
          · rw [same]
            exact firstEnd.imp id .inl
          · exact .inr (.inr member)
  | ite test yes no yesHypothesis noHypothesis =>
      rw [exec_ite, visited]
      cases test state with
      | true => exact yesHypothesis state
      | false => exact noHypothesis state

/-- From a state satisfying `pre`, `always` holds after every command, and
`post` when the script runs on. -/
def Throughout (pre : σ → Prop) (script : Script σ) (post always : σ → Prop) : Prop :=
  ∀ state, pre state →
    (∀ reached ∈ visited script state, always reached) ∧
      ∀ next, exec script state = .continues next → post next

variable {pre pre' middle post post' always : σ → Prop}

/-- What holds from the start and after every command holds at the end. -/
theorem Throughout.state {script : Script σ} (throughout : Throughout pre script post always)
    (start : ∀ state, pre state → always state) (state : σ) (holds : pre state) :
    always (exec script state).state := by
  rcases state_exec script state with same | member
  · rw [same]
    exact start state holds
  · exact (throughout state holds).1 _ member

theorem Throughout.mono {script : Script σ} (throughout : Throughout pre script post always)
    (preLe : ∀ state, pre' state → pre state) (postLe : ∀ state, post state → post' state) :
    Throughout pre' script post' always := by
  intro state holds
  obtain ⟨reached, ends⟩ := throughout state (preLe state holds)
  exact ⟨reached, fun next continued => postLe next (ends next continued)⟩

theorem throughout_skip : Throughout pre skip pre always := by
  intro state holds
  constructor
  · intro reached member
    contradiction
  · rintro next ⟨⟩
    exact holds

theorem throughout_run {command : Command σ}
    (effect : ∀ state, pre state → post (command state).2)
    (kept : ∀ state, post state → always state) :
    Throughout pre (run command) post always := by
  intro state holds
  have result := effect state holds
  constructor
  · intro reached member
    rw [visited, List.mem_singleton] at member
    rw [member]
    exact kept _ result
  · intro next continued
    have ended := (triple_run_same effect).continues holds continued
    exact ended

theorem throughout_tolerate {command : Command σ}
    (effect : ∀ state, pre state → post (command state).2)
    (kept : ∀ state, post state → always state) :
    Throughout pre (tolerate command) post always := by
  intro state holds
  have result := effect state holds
  constructor
  · intro reached member
    rw [visited, List.mem_singleton] at member
    rw [member]
    exact kept _ result
  · intro next continued
    exact (triple_tolerate effect).continues holds continued

theorem throughout_seq {first second : Script σ}
    (firstPart : Throughout pre first middle always)
    (secondPart : Throughout middle second post always) :
    Throughout pre (seq first second) post always := by
  intro state holds
  obtain ⟨firstReached, firstEnds⟩ := firstPart state holds
  rw [visited, exec_seq]
  cases ended : exec first state with
  | continues next =>
      obtain ⟨secondReached, secondEnds⟩ := secondPart next (firstEnds next ended)
      constructor
      · intro reached member
        rcases List.mem_append.mp member with early | late
        · exact firstReached reached early
        · exact secondReached reached late
      · exact secondEnds
  | exited code next =>
      constructor
      · intro reached member
        exact firstReached reached (by simpa using member)
      · intro other continued
        contradiction

theorem throughout_exit {code : Nat} : Throughout pre (exit code) post always := by
  intro state holds
  constructor
  · intro reached member
    contradiction
  · intro next continued
    contradiction

theorem throughout_ite {test : σ → Bool} {yes no : Script σ}
    (yesPart : Throughout (fun state => pre state ∧ test state = true) yes post always)
    (noPart : Throughout (fun state => pre state ∧ test state = false) no post always) :
    Throughout pre (ite test yes no) post always := by
  intro state holds
  rw [visited, exec_ite]
  cases tested : test state with
  | true => exact yesPart state ⟨holds, tested⟩
  | false => exact noPart state ⟨holds, tested⟩

theorem throughout_when {test : σ → Bool} {body : Script σ}
    (bodyPart : Throughout pre body post always) (skipped : ∀ state, pre state → post state) :
    Throughout pre (when test body) post always :=
  throughout_ite (bodyPart.mono (fun _ holds => holds.1) fun _ holds => holds)
    (throughout_skip.mono (fun _ holds => holds) fun state holds => skipped state holds.1)

/-- A condition that every command preserves holds throughout. -/
theorem Preserves.throughout {invariant : σ → Prop} {script : Script σ}
    (preserved : Preserves invariant script) (kept : ∀ state, invariant state → always state) :
    Throughout invariant script invariant always := by
  induction script with
  | skip => exact throughout_skip
  | run command => exact throughout_run preserved kept
  | tolerate command => exact throughout_tolerate preserved kept
  | exit code => exact throughout_exit
  | seq first second firstHypothesis secondHypothesis =>
      exact throughout_seq (firstHypothesis preserved.1) (secondHypothesis preserved.2)
  | ite test yes no yesHypothesis noHypothesis =>
      exact throughout_ite
        ((yesHypothesis preserved.1).mono (fun _ holds => holds.1) fun _ holds => holds)
        ((noHypothesis preserved.2).mono (fun _ holds => holds.1) fun _ holds => holds)

end Script

end AqjOs.Shell
