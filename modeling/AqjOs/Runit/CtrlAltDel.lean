import AqjOs.Runit.Core

/-!
# Ctrl+Alt+Del requests

runit leaves stage 2 on a Ctrl+Alt+Del only where `/etc/runit/stopit` carries the
owner's execute bit, and the AQJ `ctrlaltdel` script does not set it.  The
request is honoured exactly where something else has left the bit behind.  In
runs whose `init` requests all reach runit in stage 2 nothing does, and there
every Ctrl+Alt+Del ends with the services down and runit still in stage 2.
-/

namespace AqjOs.Runit

open AqjOs.Transition

/-- runit waits in stage 2 while its services have been told to shut down. -/
def System.Stranded (system : System) : Prop :=
  system.stage = .two ∧ system.servicesDown = true

/-- A Ctrl+Alt+Del in stage 2 makes runit enter stage 3 and strands no one. -/
def CtrlAltDelHonoured (system : System) : Event → Prop
  | .request .ctrlAltDel =>
      system.stage = .two →
        (step system (.request .ctrlAltDel)).stage = .three ∧
          ¬ (step system (.request .ctrlAltDel)).Stranded
  | _ => True

/-- A Ctrl+Alt+Del in stage 2 finds `stopit` with the owner's execute bit. -/
def StopitArmed (system : System) : Event → Prop
  | .request .ctrlAltDel => system.stage = .two → system.stopit.executable = true
  | _ => True

instance StopitArmed.decidable (system : System) :
    (event : Event) → Decidable (StopitArmed system event)
  | .request .ctrlAltDel => inferInstanceAs (Decidable (_ → _))
  | .request .init0 => isTrue trivial
  | .request .init6 => isTrue trivial
  | .boot _ => isTrue trivial
  | .childExits _ => isTrue trivial
  | .runsStage3 _ => isTrue trivial

/-- What becomes of a Ctrl+Alt+Del in stage 2. -/
theorem ctrlAltDel_two {system : System} (two : system.stage = .two) :
    step system (.request .ctrlAltDel) = handleCont .ctrlAltDel (ctrlaltdel system) := by
  simp only [step, handleRequest, two]

theorem ctrlAltDel_of_armed {system : System} (two : system.stage = .two)
    (armed : system.stopit.executable = true) :
    (step system (.request .ctrlAltDel)).stage = .three := by
  have armedAfter : (ctrlaltdel system).stopit.executable = true := armed
  rw [ctrlAltDel_two two, handleCont, if_pos armedAfter]

theorem ctrlAltDel_of_disarmed {system : System} (two : system.stage = .two)
    (disarmed : system.stopit.executable = false) :
    step system (.request .ctrlAltDel) = ctrlaltdel system := by
  have disarmedAfter : ¬ (ctrlaltdel system).stopit.executable = true := by
    rw [show (ctrlaltdel system).stopit = system.stopit from rfl, disarmed]
    exact Bool.false_ne_true
  rw [ctrlAltDel_two two, handleCont, if_neg disarmedAfter]

theorem ctrlAltDelHonoured_iff (system : System) (event : Event) :
    CtrlAltDelHonoured system event ↔ StopitArmed system event := by
  cases event with
  | boot writable => exact Iff.rfl
  | childExits status => exact Iff.rfl
  | runsStage3 remounted => exact Iff.rfl
  | request request =>
      cases request with
      | init0 => exact Iff.rfl
      | init6 => exact Iff.rfl
      | ctrlAltDel =>
          constructor
          · intro honoured two
            cases bit : system.stopit.executable with
            | true => rfl
            | false =>
                have entered := (honoured two).1
                rw [ctrlAltDel_of_disarmed two bit] at entered
                have stayed : (ctrlaltdel system).stage = .two := two
                rw [stayed] at entered
                cases entered
          · intro armed two
            have entered := ctrlAltDel_of_armed two (armed two)
            constructor
            · exact entered
            · rintro ⟨stayed, -⟩
              rw [entered] at stayed
              cases stayed

/-- In every run of boots, child exits and requests, every Ctrl+Alt+Del in
stage 2 is honoured if and only if each of them finds `stopit` executable. -/
theorem ctrlAltDel_honoured_iff_armed (reboot stopit : Flag) (svInstalled : Bool)
    (events : List Event) :
    Along step CtrlAltDelHonoured (.poweredOff reboot stopit svInstalled) events ↔
      Along step StopitArmed (.poweredOff reboot stopit svInstalled) events :=
  along_congr ctrlAltDelHonoured_iff _ events

/-- On a fresh machine a Ctrl+Alt+Del shuts the services down and runit stays
in stage 2. -/
theorem freshCtrlAltDel_not_honoured :
    ¬ ∀ (reboot stopit : Flag) (svInstalled : Bool) (events : List Event),
      Along step CtrlAltDelHonoured (.poweredOff reboot stopit svInstalled) events := by
  intro honoured
  have handled := (honoured .absent .absent true
    [.boot true, .childExits (.exitCode 0), .request .ctrlAltDel]).2.2.1
  exact absurd (handled rfl).1 (by decide)

/-- An `init 6` that comes before stage 2 arms `stopit`, and the Ctrl+Alt+Del
after it is honoured. -/
theorem earlyRebootRequest_honoured :
    Along step CtrlAltDelHonoured (.poweredOff .absent .absent true)
      [.boot true, .request .init6, .childExits (.exitCode 0), .request .ctrlAltDel] :=
  (ctrlAltDel_honoured_iff_armed .absent .absent true _).mpr (by decide)

/-! ## Runs without a request outside stage 2 -/

/-- `init 0` and `init 6` reach runit in stage 2, or cannot write `stopit`. -/
def Prompt (system : System) : Event → Prop
  | .request .init0 => system.stage = .one ∨ system.stage = .three → system.writable = false
  | .request .init6 => system.stage = .one ∨ system.stage = .three → system.writable = false
  | _ => True

/-- The request strands runit: it stays in stage 2, with the services down
where `sv` is installed. -/
def CtrlAltDelIgnored (system : System) : Event → Prop
  | .request .ctrlAltDel =>
      system.stage = .two →
        (step system (.request .ctrlAltDel)).stage = .two ∧
          (system.svInstalled = true → (step system (.request .ctrlAltDel)).Stranded)
  | _ => True

/-- `stopit` does not carry the owner's execute bit. -/
def System.Disarmed (system : System) : Prop :=
  system.stopit.executable = false

/-- A SIGCONT on a writable root leaves `stopit` without its bit. -/
theorem handleCont_disarmed (request : Request) {system : System}
    (writable : system.writable = true) :
    (handleCont request system).Disarmed := by
  rw [System.Disarmed]
  by_cases armed : system.stopit.executable = true
  · rw [handleCont, if_pos armed]
    simp only [writable, if_true]
    cases system.stopit <;> rfl
  · rw [handleCont, if_neg armed]
    simpa using armed

/-- A request in stage 2 uses up the bit that it sets. -/
theorem signalled_disarmed (request : Request) {system : System} {change : System → Option System}
    (readOnly : system.writable = false → change system = none)
    (sameRoot : ∀ next, change system = some next → next.writable = system.writable)
    (disarmed : system.Disarmed) :
    (((change system).map (handleCont request)).getD system).Disarmed := by
  cases changed : change system with
  | none => exact disarmed
  | some next =>
      apply handleCont_disarmed
      rw [sameRoot next changed]
      cases root : system.writable with
      | true => rfl
      | false =>
          rw [readOnly root] at changed
          cases changed

theorem runitHalt_of_readOnly {system : System} (readOnly : system.writable = false) :
    runitHalt system = none := by
  simp [runitHalt, readOnly]

theorem runitReboot_of_readOnly {system : System} (readOnly : system.writable = false) :
    runitReboot system = none := by
  simp [runitReboot, readOnly]

theorem runitHalt_writable {system next : System} (halted : runitHalt system = some next) :
    next.writable = system.writable := by
  rw [runitHalt] at halted
  split at halted
  · cases halted
    rfl
  · cases halted

theorem runitReboot_writable {system next : System} (rebooted : runitReboot system = some next) :
    next.writable = system.writable := by
  rw [runitReboot] at rebooted
  split at rebooted
  · cases rebooted
    rfl
  · cases rebooted

/-- A request outside stage 2 that cannot write leaves the system as it is. -/
theorem unsignalled_disarmed {system : System} {change : System → Option System}
    (none : change system = none) (disarmed : system.Disarmed) :
    ((change system).getD system).Disarmed := by
  rw [none]
  exact disarmed

theorem handleRequest_disarmed {request : Request} {system : System}
    (prompt : Prompt system (.request request)) (disarmed : system.Disarmed) :
    (handleRequest request system).Disarmed := by
  cases stage : system.stage with
  | off =>
      simp only [handleRequest, stage]
      exact disarmed
  | one =>
      cases request with
      | init0 =>
          simp only [handleRequest, stage]
          exact unsignalled_disarmed (runitHalt_of_readOnly (prompt (.inl stage))) disarmed
      | init6 =>
          simp only [handleRequest, stage]
          exact unsignalled_disarmed (runitReboot_of_readOnly (prompt (.inl stage))) disarmed
      | ctrlAltDel =>
          simp only [handleRequest, stage]
          exact disarmed
  | two =>
      cases request with
      | init0 =>
          simp only [handleRequest, stage]
          exact signalled_disarmed .init0 runitHalt_of_readOnly
            (fun _ => runitHalt_writable) disarmed
      | init6 =>
          simp only [handleRequest, stage]
          exact signalled_disarmed .init6 runitReboot_of_readOnly
            (fun _ => runitReboot_writable) disarmed
      | ctrlAltDel =>
          have same : handleRequest .ctrlAltDel system = ctrlaltdel system :=
            ctrlAltDel_of_disarmed stage disarmed
          rw [same]
          exact disarmed
  | three =>
      cases request with
      | init0 =>
          simp only [handleRequest, stage]
          exact unsignalled_disarmed (runitHalt_of_readOnly (prompt (.inr stage))) disarmed
      | init6 =>
          simp only [handleRequest, stage]
          exact unsignalled_disarmed (runitReboot_of_readOnly (prompt (.inr stage))) disarmed
      | ctrlAltDel =>
          simp only [handleRequest, stage]
          exact disarmed

theorem step_disarmed {event : Event} {system : System} (prompt : Prompt system event)
    (disarmed : system.Disarmed) : (step system event).Disarmed := by
  cases event with
  | boot writable => exact disarmed
  | request request => exact handleRequest_disarmed prompt disarmed
  | childExits status =>
      simp only [step, childExits]
      split
      · exact disarmed
      · split <;> exact disarmed
      · split <;> exact disarmed
      · exact disarmed
  | runsStage3 remounted =>
      simp only [step, stage3]
      split
      · split <;> exact disarmed
      · exact disarmed

theorem ctrlAltDelIgnored_of_disarmed {system : System} (disarmed : system.Disarmed)
    (event : Event) :
    CtrlAltDelIgnored system event := by
  cases event with
  | boot writable => trivial
  | childExits status => trivial
  | runsStage3 remounted => trivial
  | request request =>
      cases request with
      | init0 => trivial
      | init6 => trivial
      | ctrlAltDel =>
          intro two
          rw [ctrlAltDel_of_disarmed two disarmed]
          constructor
          · exact two
          · intro installed
            constructor
            · exact two
            · simp [ctrlaltdel, installed]

/-- In every run from a machine without an executable `stopit` whose `init`
requests all reach runit in stage 2, no Ctrl+Alt+Del is ever honoured. -/
theorem ctrlAltDel_ignored_of_prompt (reboot stopit : Flag) (svInstalled : Bool)
    (disarmed : stopit.executable = false) (events : List Event)
    (prompt : Along step Prompt (.poweredOff reboot stopit svInstalled) events) :
    Along step CtrlAltDelIgnored (.poweredOff reboot stopit svInstalled) events := by
  have start : (System.poweredOff reboot stopit svInstalled).Disarmed := disarmed
  exact along_of_invariant (fun _ _ unarmed met => step_disarmed met unarmed)
    (fun _ event unarmed _ => ctrlAltDelIgnored_of_disarmed unarmed event) start prompt

end AqjOs.Runit
