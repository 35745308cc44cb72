import AqjOs.Runit.Core

/-!
# Agreement of the stage 3 decision with the shutdown request

runit encodes a power-off request by clearing the execute bit of
`/etc/runit/reboot`, and the stage 3 script reads the mere existence of that
file as a reboot request.  The two encodings agree exactly as long as the file
does not outlive the request it was made for.  `FlagClear` is that condition
on the state before each step; under it every run of boots and requests takes
the decision that was asked for.
-/

namespace AqjOs.Runit

open AqjOs.Transition

/-- The state before a step leaves the reboot flag in the right position for
the decision: `init 0` finds no flag, Ctrl+Alt+Del can create it or finds it,
and nobody asks for a reboot once a power-off is under way. -/
def FlagClear (system : System) : Event → Prop
  | .request .init0 =>
      system.stage = .two → system.writable = true → system.reboot = .absent
  | .request .ctrlAltDel =>
      system.stage = .two → system.stopit.executable = true →
        system.writable = false → system.reboot ≠ .absent
  | .request .init6 =>
      system.stage = .three → system.writable = true → system.leftBy ≠ some .init0
  | _ => True

instance FlagClear.decidable (system : System) :
    (event : Event) → Decidable (FlagClear system event)
  | .request .init0 => inferInstanceAs (Decidable (_ → _ → _))
  | .request .ctrlAltDel => inferInstanceAs (Decidable (_ → _ → _ → _))
  | .request .init6 => inferInstanceAs (Decidable (_ → _ → _))
  | .boot _ => isTrue trivial
  | .childExits _ => isTrue trivial
  | .runsStage3 _ => isTrue trivial

/-- In stage 3 the flag exists exactly when the request that ended stage 2
asked for a reboot. -/
def FlagTellsRequest (system : System) : Prop :=
  system.stage = .three → ∀ request, system.leftBy = some request →
    (system.reboot.exists? = true ↔ request.asksReboot = true)

theorem flagTellsRequest_of_stage_ne {system : System} (notThree : system.stage ≠ .three) :
    FlagTellsRequest system :=
  fun three => absurd three notThree

theorem flagTellsRequest_of_leftBy_eq_none {system : System}
    (unasked : system.leftBy = none) : FlagTellsRequest system := by
  intro _ request asked
  rw [unasked] at asked
  contradiction

/-- The invariant reads only the stage, the request and the flag's existence. -/
theorem FlagTellsRequest.congr {system next : System} (tells : FlagTellsRequest system)
    (stage_eq : next.stage = system.stage) (leftBy_eq : next.leftBy = system.leftBy)
    (exists_eq : next.reboot.exists? = system.reboot.exists?) : FlagTellsRequest next := by
  intro three request asked
  rw [exists_eq]
  exact tells (stage_eq.symm.trans three) request (leftBy_eq.symm.trans asked)

/-- Handling SIGCONT keeps the flag, and enters stage 3 only for `request`. -/
theorem flagTellsRequest_handleCont {request : Request} {system : System}
    (two : system.stage = .two)
    (matching : system.stopit.executable = true →
      (system.reboot.exists? = true ↔ request.asksReboot = true)) :
    FlagTellsRequest (handleCont request system) := by
  by_cases stop : system.stopit.executable = true
  · rw [handleCont, if_pos stop]
    intro _ asked asked_eq
    have request_eq : request = asked := Option.some.inj asked_eq
    subst asked
    exact matching stop
  · rw [handleCont, if_neg stop]
    apply flagTellsRequest_of_stage_ne
    rw [two]
    decide

theorem flagTellsRequest_init0_two {system : System} (two : system.stage = .two)
    (clear : FlagClear system (.request .init0)) :
    FlagTellsRequest (((runitHalt system).map (handleCont .init0)).getD system) := by
  by_cases writable : system.writable = true
  · have absent : system.reboot = .absent := clear two writable
    simp only [runitHalt, if_pos writable, Option.map_some, Option.getD_some]
    apply flagTellsRequest_handleCont
    · exact two
    · intro _
      simp [absent, Flag.chmod, Flag.exists?, Request.asksReboot]
  · simp only [runitHalt, if_neg writable, Option.map_none, Option.getD_none]
    apply flagTellsRequest_of_stage_ne
    rw [two]
    decide

theorem flagTellsRequest_init6_two {system : System} (two : system.stage = .two) :
    FlagTellsRequest (((runitReboot system).map (handleCont .init6)).getD system) := by
  by_cases writable : system.writable = true
  · simp only [runitReboot, if_pos writable, Option.map_some, Option.getD_some]
    apply flagTellsRequest_handleCont
    · exact two
    · intro _
      simp [Request.asksReboot]
  · simp only [runitReboot, if_neg writable, Option.map_none, Option.getD_none]
    apply flagTellsRequest_of_stage_ne
    rw [two]
    decide

theorem flagTellsRequest_ctrlAltDel_two {system : System} (two : system.stage = .two)
    (clear : FlagClear system (.request .ctrlAltDel)) :
    FlagTellsRequest (handleCont .ctrlAltDel (ctrlaltdel system)) := by
  apply flagTellsRequest_handleCont
  · exact two
  · intro stop
    have exists_eq : (ctrlaltdel system).reboot.exists? = true := by
      by_cases writable : system.writable = true
      · simp [ctrlaltdel, writable]
      · have readOnly : system.writable = false := by simpa using writable
        have present : system.reboot ≠ .absent := clear two stop readOnly
        rw [ctrlaltdel, if_neg writable]
        cases flag : system.reboot with
        | absent => exact absurd flag present
        | present ownerX => rfl
    simp [exists_eq, Request.asksReboot]

/-- `runit-init 0` outside stage 2 changes modes, never the flag's existence. -/
theorem FlagTellsRequest.runitHalt {system : System} (tells : FlagTellsRequest system) :
    FlagTellsRequest ((runitHalt system).getD system) := by
  by_cases writable : system.writable = true
  · simp only [Runit.runitHalt, if_pos writable, Option.getD_some]
    exact tells.congr rfl rfl (Flag.exists?_chmod _ _)
  · simpa only [Runit.runitHalt, if_neg writable, Option.getD_none] using tells

theorem FlagTellsRequest.runitReboot {system : System} (tells : FlagTellsRequest system)
    (clear : FlagClear system (.request .init6)) :
    FlagTellsRequest ((runitReboot system).getD system) := by
  by_cases writable : system.writable = true
  · simp only [Runit.runitReboot, if_pos writable, Option.getD_some]
    intro three request asked
    have notHalt : system.leftBy ≠ some .init0 := clear three writable
    cases request with
    | init0 => exact absurd asked notHalt
    | init6 => simp [Request.asksReboot]
    | ctrlAltDel => simp [Request.asksReboot]
  · simpa only [Runit.runitReboot, if_neg writable, Option.getD_none] using tells

theorem FlagTellsRequest.handleRequest {system : System} (tells : FlagTellsRequest system)
    {request : Request} (clear : FlagClear system (.request request)) :
    FlagTellsRequest (handleRequest request system) := by
  cases stage_eq : system.stage with
  | off => simpa only [Runit.handleRequest, stage_eq] using tells
  | one =>
      cases request with
      | init0 => simpa only [Runit.handleRequest, stage_eq] using tells.runitHalt
      | init6 => simpa only [Runit.handleRequest, stage_eq] using tells.runitReboot clear
      | ctrlAltDel => simpa only [Runit.handleRequest, stage_eq] using tells
  | two =>
      cases request with
      | init0 =>
          simpa only [Runit.handleRequest, stage_eq] using
            flagTellsRequest_init0_two stage_eq clear
      | init6 =>
          simpa only [Runit.handleRequest, stage_eq] using flagTellsRequest_init6_two stage_eq
      | ctrlAltDel =>
          simpa only [Runit.handleRequest, stage_eq] using
            flagTellsRequest_ctrlAltDel_two stage_eq clear
  | three =>
      cases request with
      | init0 => simpa only [Runit.handleRequest, stage_eq] using tells.runitHalt
      | init6 => simpa only [Runit.handleRequest, stage_eq] using tells.runitReboot clear
      | ctrlAltDel => simpa only [Runit.handleRequest, stage_eq] using tells

theorem flagTellsRequest_childExits (status : WaitStatus) {system : System}
    (tells : FlagTellsRequest system) : FlagTellsRequest (childExits status system) := by
  cases stage_eq : system.stage with
  | off => simpa only [childExits, stage_eq] using tells
  | one =>
      simp only [childExits, stage_eq]
      split
      · exact flagTellsRequest_of_leftBy_eq_none rfl
      · exact flagTellsRequest_of_stage_ne (by simp)
  | two =>
      simp only [childExits, stage_eq]
      split
      · exact flagTellsRequest_of_stage_ne (by simp)
      · exact flagTellsRequest_of_leftBy_eq_none rfl
  | three =>
      simp only [childExits, stage_eq]
      exact flagTellsRequest_of_stage_ne (by simp)

/-- The stage 3 script always leaves the machine off. -/
theorem stage3_stage (remounted : Bool) (system : System) :
    (stage3 remounted system).stage = .off := by
  simp only [stage3]
  split <;> rfl

/-- One step that meets `FlagClear` preserves the invariant. -/
theorem FlagTellsRequest.step {system : System} {event : Event}
    (tells : FlagTellsRequest system) (clear : FlagClear system event) :
    FlagTellsRequest (step system event) := by
  cases event with
  | boot writable => exact flagTellsRequest_of_leftBy_eq_none rfl
  | childExits status => exact flagTellsRequest_childExits status tells
  | request request => exact tells.handleRequest clear
  | runsStage3 remounted =>
      simp only [Runit.step]
      split
      · apply flagTellsRequest_of_stage_ne
        rw [stage3_stage]
        decide
      · exact tells

theorem FlagTellsRequest.decisionAgrees {system : System} (tells : FlagTellsRequest system)
    (event : Event) : DecisionAgrees system event := by
  cases event with
  | boot writable => trivial
  | childExits status => trivial
  | request request => trivial
  | runsStage3 remounted =>
      intro three request asked
      rw [stage3Branch_eq_reboot_iff]
      exact tells three request asked

/-- In every run of boots, child exits and requests whose steps all meet
`FlagClear`, every stage 3 decision answers the request that ended stage 2. -/
theorem decisionAgrees_of_flagClear (reboot stopit : Flag) (svInstalled : Bool)
    (events : List Event)
    (clear : Along step FlagClear (.poweredOff reboot stopit svInstalled) events) :
    Along step DecisionAgrees (.poweredOff reboot stopit svInstalled) events := by
  have start : FlagTellsRequest (.poweredOff reboot stopit svInstalled) :=
    flagTellsRequest_of_leftBy_eq_none rfl
  exact along_of_invariant (fun _ _ tells met => tells.step met)
    (fun _ event tells _ => tells.decisionAgrees event) start clear

/-- A reboot, whose flag the read-only root keeps, followed by `init 0` in the
next boot. -/
def haltAfterReboot : List Event :=
  [.boot true, .childExits (.exitCode 0), .request .init6, .runsStage3 true,
    .boot true, .childExits (.exitCode 0), .request .init0, .runsStage3 true]

/-- The flag of an earlier boot turns a later power-off into a reboot. -/
theorem haltAfterReboot_disagrees :
    ¬ ∀ (reboot stopit : Flag) (svInstalled : Bool) (events : List Event),
      Along step DecisionAgrees (.poweredOff reboot stopit svInstalled) events := by
  intro agrees
  have decided := (agrees .absent .absent true haltAfterReboot).2.2.2.2.2.2.2.1
  have rebooted := (decided rfl .init0 rfl).mp rfl
  exact absurd rebooted (by decide)

/-- On a root that stays writable the flag is removed, and the same two boots
take both decisions as asked. -/
theorem haltAfterCleanReboot_agrees :
    Along step DecisionAgrees (.poweredOff .absent .absent true)
      [.boot true, .childExits (.exitCode 0), .request .init6, .runsStage3 false,
        .boot true, .childExits (.exitCode 0), .request .init0, .runsStage3 true] :=
  decisionAgrees_of_flagClear .absent .absent true _ (by decide)

end AqjOs.Runit
