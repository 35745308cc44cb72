import AqjOs.Shell.Script
import AqjOs.Transition.Run

/-!
# Kernel patches over many runs

`build_kernel.sh` keeps the kernel source between its runs and passes every patch
file over it in each of them, whether or not `patch` succeeds.  A source tree is
left abstract here: it is the source apart from `.config` and the products of the
build, which is all that `patch` reads and that `make` leaves alone.  A patch is
a partial function on trees that leaves something behind where it is undefined.
-/

namespace AqjOs.Build.Patches

open AqjOs.Shell AqjOs.Transition

universe u

variable {τ : Type u}

/-- `patch -p1`: the patched tree, or the tree with the hunks that did apply. -/
abbrev Patch (τ : Type u) := τ → Except τ τ

/-- The tree that `patch` leaves, patched or not. -/
def Patch.left (patch : Patch τ) (tree : τ) : τ :=
  match patch tree with
  | .ok next => next
  | .error rest => rest

/-- Apply patches one after the other, as long as they apply. -/
def applyAll : List (Patch τ) → τ → Option τ
  | [], tree => some tree
  | patch :: rest, tree =>
      match patch tree with
      | .ok next => applyAll rest next
      | .error _ => none

/-- The tree after patches have been passed over it, whether they apply or not. -/
def passAll : List (Patch τ) → τ → τ
  | [], tree => tree
  | patch :: rest, tree => passAll rest (patch.left tree)

/-- What one run meets: the tarball and the patch files in glob order, its
argument, the host, the status of its commands, where it is interrupted, and what
a removal, an extraction and an interrupted patch leave behind. -/
structure Environment (τ : Type u) where
  tarball : Option τ
  patches : List (Patch τ)
  clean : Bool
  linux : Bool
  makesDirectories : Bool
  removes : Bool
  kept : τ → τ
  unpacks : Bool
  written : Option τ
  interrupted : Nat → Bool
  hunks : Nat → τ → τ
  configures : Bool
  makes : Bool

/-- The source directory, whether a patch of the current run has failed, and the
tree that the current run has handed to `make`. -/
structure State (τ : Type u) where
  source : Option τ
  failed : Bool
  made : Option τ

/-! ## The script -/

section Script

variable (env : Environment τ)

/-- `rm -rf "${SRC_DIR}"`. -/
def removeSource : Command (State τ) :=
  .of (fun _ => env.removes) fun state =>
    { state with source := if env.removes then none else state.source.map env.kept }

/-- `tar -xzf "${TARBALL_PATH}" -C "${BUILD_DIR}"`. -/
def untar : Command (State τ) :=
  .of (fun _ => env.unpacks) fun state =>
    { state with source := if env.unpacks then env.tarball else env.written }

/-- `patch -p1 -d "${SRC_DIR}" < "${patch_file}"`. -/
def applyPatch (number : Nat) (patch : Patch τ) : Command (State τ) :=
  fun state =>
    match state.source with
    | none => (.failure, { state with failed := true })
    | some tree =>
        if env.interrupted number then
          (.interrupted, { state with source := some (env.hunks number tree) })
        else
          match patch tree with
          | .ok next => (.success, { state with source := some next })
          | .error rest => (.failure, { state with source := some rest, failed := true })

/-- The loop over the patch files, each under `|| true`. -/
def patchLoop : Nat → List (Patch τ) → Script (State τ)
  | _, [] => .skip
  | number, patch :: rest =>
      .seq (.tolerate (applyPatch env number patch)) (patchLoop (number + 1) rest)

/-- The first `make` of the compilation. -/
def make : Command (State τ) :=
  .of (fun _ => env.makes) fun state => { state with made := state.source }

/-- The verification of the tarball, `--clean` and the extraction of the source. -/
def extraction : Script (State τ) :=
  .block [
    .when (fun _ => env.tarball.isNone) (.exit 1),
    .run (.of (fun _ => env.makesDirectories) id),
    .when (fun _ => env.clean) (.run (removeSource env)),
    .when (fun state => state.source.isNone) (.run (untar env))]

/-- The patches, if there are any. -/
def patching : Script (State τ) :=
  .when (fun _ => !env.patches.isEmpty) (patchLoop env 0 env.patches)

/-- The configuration, the check of the host and the compilation. -/
def compilation : Script (State τ) :=
  .block [
    .run (.of (fun _ => env.configures) id),
    .when (fun _ => !env.linux) (.exit 0),
    .run (make env)]

/-- `build_kernel.sh` up to the compilation. -/
def buildKernel : Script (State τ) :=
  .seq (extraction env) (.seq (patching env) (compilation env))

end Script

/-- A run begins with the source that is there, and with no failure of its own. -/
def State.begin (state : State τ) : State τ :=
  { state with failed := false, made := none }

@[simp]
theorem State.begin_made (state : State τ) : state.begin.made = none :=
  rfl

@[simp]
theorem State.begin_failed (state : State τ) : state.begin.failed = false :=
  rfl

/-- One run of the script. -/
def step (state : State τ) (env : Environment τ) : State τ :=
  ((buildKernel env).exec state.begin).state

/-- A checkout in which the kernel has never been built. -/
def State.start : State τ where
  source := none
  failed := false
  made := none

/-- A run that reaches `make` has applied every patch, and hands over the tree of
the tarball with every patch applied once and in order. -/
def PatchedOnce (state : State τ) (env : Environment τ) : Prop :=
  ∀ tree, (step state env).made = some tree →
    (step state env).failed = false ∧ env.tarball.bind (applyAll env.patches) = some tree

/-! ## What a run does -/

/-- The tree that the patches meet: the one that is there, or the tarball's. -/
def startTree (state : State τ) (env : Environment τ) : Option τ :=
  if env.clean then env.tarball else state.source.or env.tarball

/-- The extraction leaves a source behind. -/
def extracts (state : State τ) (env : Environment τ) : Bool :=
  env.tarball.isSome && env.makesDirectories && (!env.clean || env.removes) &&
    (!(env.clean || state.source.isNone) || env.unpacks)

/-- No patch is interrupted. -/
def uninterrupted (env : Environment τ) : Bool :=
  (List.range env.patches.length).all fun number => !env.interrupted number

/-- No command in front of `make` ends the run. -/
def reachesMake (state : State τ) (env : Environment τ) : Bool :=
  extracts state env && uninterrupted env && env.configures && env.linux

theorem exec_extraction {state : State τ} {env : Environment τ}
    (ready : extracts state env = true) :
    (extraction env).exec state = .continues { state with source := startTree state env } := by
  obtain ⟨source, failed, made⟩ := state
  simp only [extracts, Bool.and_eq_true] at ready
  obtain ⟨⟨⟨present, directories⟩, removal⟩, unpacking⟩ := ready
  obtain ⟨tree, tarball⟩ := Option.isSome_iff_exists.mp present
  cases clean : env.clean with
  | true =>
      have removes : env.removes = true := by simpa [clean] using removal
      have unpacks : env.unpacks = true := by simpa [clean] using unpacking
      simp [extraction, removeSource, untar, startTree, Script.exec_seq, Script.exec_run_of,
        tarball, directories, clean, removes, unpacks]
  | false =>
      cases source with
      | some kept =>
          simp [extraction, untar, startTree, Script.exec_seq, Script.exec_run_of, tarball,
            directories, clean]
      | none =>
          have unpacks : env.unpacks = true := by simpa [clean] using unpacking
          simp [extraction, untar, startTree, Script.exec_seq, Script.exec_run_of, tarball,
            directories, clean, unpacks]

theorem exec_extraction_stops {state : State τ} {env : Environment τ}
    (unready : extracts state env = false) :
    ((extraction env).exec state).running = false ∧
      ((extraction env).exec state).state.made = state.made := by
  obtain ⟨source, failed, made⟩ := state
  cases tarball : env.tarball with
  | none => simp [extraction, Script.exec_seq, tarball]
  | some tree =>
      cases directories : env.makesDirectories with
      | false => simp [extraction, Script.exec_seq, Script.exec_run_of, tarball, directories]
      | true =>
          cases clean : env.clean <;> cases removes : env.removes <;>
            cases unpacks : env.unpacks <;> cases source <;>
            simp_all [extracts, extraction, removeSource, untar, Script.exec_seq,
              Script.exec_run_of]

theorem passAll_of_applyAll {patches : List (Patch τ)} {tree result : τ}
    (applied : applyAll patches tree = some result) : passAll patches tree = result := by
  induction patches generalizing tree with
  | nil => exact Option.some.inj applied
  | cons patch patches ih =>
      rw [applyAll] at applied
      rw [passAll, Patch.left]
      cases outcome : patch tree with
      | ok next =>
          rw [outcome] at applied
          exact ih applied
      | error rest =>
          rw [outcome] at applied
          cases applied

theorem applyPatch_of_source {env : Environment τ} {number : Nat} {state : State τ} {tree : τ}
    (uninterrupted : env.interrupted number = false) (source : state.source = some tree)
    (patch : Patch τ) :
    (Script.tolerate (applyPatch env number patch)).exec state =
      .continues { state with
        source := some (patch.left tree)
        failed := state.failed || (applyAll [patch] tree).isNone } := by
  rw [Script.exec, applyPatch, source]
  cases outcome : patch tree with
  | ok next => simp [uninterrupted, outcome, Patch.left, applyAll]
  | error rest => simp [uninterrupted, outcome, Patch.left, applyAll]

theorem applyAll_cons_isNone (patch : Patch τ) (patches : List (Patch τ)) (tree : τ) :
    (applyAll (patch :: patches) tree).isNone =
      ((applyAll [patch] tree).isNone || (applyAll patches (patch.left tree)).isNone) := by
  cases outcome : patch tree with
  | ok next => simp [applyAll, Patch.left, outcome]
  | error rest => simp [applyAll, outcome]

/-- An uninterrupted loop passes every patch over the tree, and records it if one
of them did not apply. -/
theorem exec_patchLoop {env : Environment τ} {patches : List (Patch τ)} {number : Nat}
    {state : State τ} {tree : τ}
    (uninterrupted : ∀ index < patches.length, env.interrupted (number + index) = false)
    (source : state.source = some tree) :
    (patchLoop env number patches).exec state =
      .continues { state with
        source := some (passAll patches tree)
        failed := state.failed || (applyAll patches tree).isNone } := by
  induction patches generalizing number state tree with
  | nil =>
      cases state with
      | mk kept failed made =>
          cases source
          simp [patchLoop, passAll, applyAll]
  | cons patch patches ih =>
      have now : env.interrupted number = false := uninterrupted 0 (by simp)
      have later : ∀ index < patches.length,
          env.interrupted (number + 1 + index) = false := by
        intro index bound
        have shifted := uninterrupted (index + 1) (by simpa using bound)
        rwa [Nat.add_assoc, Nat.add_comm 1 index]
      rw [patchLoop, Script.exec_seq_of_continues (applyPatch_of_source now source patch),
        ih later rfl, passAll, applyAll_cons_isNone patch patches, Bool.or_assoc]

/-- An interruption ends the run in the loop, before anything is handed to `make`. -/
theorem exec_patchLoop_stops {env : Environment τ} {patches : List (Patch τ)}
    {number index : Nat} {state : State τ} {tree : τ} (bound : index < patches.length)
    (interrupted : env.interrupted (number + index) = true)
    (source : state.source = some tree) :
    ((patchLoop env number patches).exec state).running = false ∧
      ((patchLoop env number patches).exec state).state.made = state.made := by
  induction patches generalizing number index state tree with
  | nil => simp at bound
  | cons patch patches ih =>
      cases now : env.interrupted number with
      | true =>
          have ends : (Script.tolerate (applyPatch env number patch)).exec state =
              .exited 130 { state with source := some (env.hunks number tree) } := by
            rw [Script.exec, applyPatch, source]
            simp [now]
          rw [patchLoop, Script.exec_seq_of_stopped (by rw [ends]; rfl), ends]
          constructor
          · rfl
          · rfl
      | false =>
          rw [patchLoop, Script.exec_seq_of_continues (applyPatch_of_source now source patch)]
          cases index with
          | zero =>
              rw [Nat.add_zero, now] at interrupted
              contradiction
          | succ index =>
              have shifted : env.interrupted (number + 1 + index) = true := by
                rwa [Nat.add_assoc, Nat.add_comm 1 index]
              exact ih (Nat.lt_of_succ_lt_succ bound) shifted rfl

/-- A loop over no patch files needs no test for them. -/
theorem exec_patching (env : Environment τ) (state : State τ) :
    (patching env).exec state = (patchLoop env 0 env.patches).exec state := by
  rw [patching, Script.exec_when]
  cases env.patches with
  | nil => rfl
  | cons patch patches => rfl

theorem exec_compilation_made (env : Environment τ) (state : State τ) :
    ((compilation env).exec state).state.made =
      if env.configures && env.linux then state.source else state.made := by
  cases configures : env.configures <;> cases linux : env.linux <;> cases makes : env.makes <;>
    simp [compilation, make, Script.exec_seq, Script.exec_run_of, configures, linux, makes]

theorem exec_compilation_failed (env : Environment τ) (state : State τ) :
    ((compilation env).exec state).state.failed = state.failed := by
  cases configures : env.configures <;> cases linux : env.linux <;> cases makes : env.makes <;>
    simp [compilation, make, Script.exec_seq, Script.exec_run_of, configures, linux, makes]

theorem startTree_of_extracts {state : State τ} {env : Environment τ}
    (ready : extracts state env = true) : ∃ tree, startTree state env = some tree := by
  simp only [extracts, Bool.and_eq_true] at ready
  obtain ⟨tree, tarball⟩ := Option.isSome_iff_exists.mp ready.1.1.1
  rw [startTree, tarball]
  cases env.clean with
  | true => exact ⟨tree, rfl⟩
  | false =>
      cases state.source with
      | none => exact ⟨tree, rfl⟩
      | some kept => exact ⟨kept, rfl⟩

theorem exec_patching_of_uninterrupted {env : Environment τ} {state : State τ} {tree : τ}
    (whole : uninterrupted env = true) (source : state.source = some tree) :
    (patching env).exec state =
      .continues { state with
        source := some (passAll env.patches tree)
        failed := state.failed || (applyAll env.patches tree).isNone } := by
  rw [exec_patching]
  apply exec_patchLoop _ source
  intro index bound
  have passed := List.all_eq_true.mp whole index (List.mem_range.mpr bound)
  simpa using passed

theorem exec_patching_stops {env : Environment τ} {state : State τ} {tree : τ}
    (broken : uninterrupted env = false) (source : state.source = some tree) :
    ((patching env).exec state).running = false ∧
      ((patching env).exec state).state.made = state.made := by
  obtain ⟨index, member, interrupted⟩ := List.all_eq_false.mp broken
  rw [exec_patching]
  apply exec_patchLoop_stops (List.mem_range.mp member) _ source
  simpa using interrupted

/-- The run up to the compilation, if nothing ends it there. -/
theorem exec_buildKernel {env : Environment τ} {state : State τ} {tree : τ}
    (ready : extracts state env = true) (whole : uninterrupted env = true)
    (start : startTree state env = some tree) :
    (buildKernel env).exec state =
      (compilation env).exec { state with
        source := some (passAll env.patches tree)
        failed := state.failed || (applyAll env.patches tree).isNone } := by
  rw [buildKernel, Script.exec_seq_of_continues (exec_extraction ready)]
  exact Script.exec_seq_of_continues (exec_patching_of_uninterrupted whole start)

/-- A run that does not get to the compilation hands over nothing. -/
theorem exec_buildKernel_stops {env : Environment τ} {state : State τ}
    (stops : (extracts state env && uninterrupted env) = false) :
    ((buildKernel env).exec state).state.made = state.made := by
  cases ready : extracts state env with
  | false =>
      obtain ⟨stopped, unmade⟩ := exec_extraction_stops ready
      rw [buildKernel, Script.exec_seq_of_stopped stopped]
      exact unmade
  | true =>
      have broken : uninterrupted env = false := by simpa [ready] using stops
      obtain ⟨tree, start⟩ := startTree_of_extracts ready
      rw [buildKernel, Script.exec_seq_of_continues (exec_extraction ready)]
      have extracted : ({ state with source := startTree state env } : State τ).source =
          some tree := start
      obtain ⟨stopped, unmade⟩ := exec_patching_stops broken extracted
      rw [Script.exec_seq_of_stopped stopped]
      exact unmade

/-- A run hands a tree to `make` if nothing ends it before, and that tree is the one
it started from with every patch passed over it. -/
theorem step_made (state : State τ) (env : Environment τ) :
    (step state env).made =
      if reachesMake state env then (startTree state env).map (passAll env.patches) else none := by
  have sameStart : startTree state env = startTree state.begin env := rfl
  have sameReach : reachesMake state env = reachesMake state.begin env := rfl
  rw [step, sameStart, sameReach]
  cases reaches : extracts state.begin env && uninterrupted env with
  | false =>
      rw [exec_buildKernel_stops reaches]
      simp [reachesMake, reaches]
  | true =>
      obtain ⟨ready, whole⟩ := Bool.and_eq_true_iff.mp reaches
      obtain ⟨tree, start⟩ := startTree_of_extracts ready
      rw [exec_buildKernel ready whole start, exec_compilation_made, start]
      simp [reachesMake, ready, whole]

/-- A run that reaches `make` knows of a failure if a patch did not apply. -/
theorem step_failed {state : State τ} {env : Environment τ} {tree : τ}
    (reaches : reachesMake state env = true) (start : startTree state env = some tree) :
    (step state env).failed = (applyAll env.patches tree).isNone := by
  simp only [reachesMake, Bool.and_eq_true] at reaches
  obtain ⟨⟨⟨ready, whole⟩, _⟩, _⟩ := reaches
  have begun : extracts state.begin env = true := ready
  rw [step, exec_buildKernel begun whole start, exec_compilation_failed]
  rw [State.begin_failed, Bool.false_or]

/-! ## When the patches are applied once -/

/-- The patches of a run that reaches `make` apply to the tree that it starts from,
and make of it what they make of the tarball's tree. -/
def Appliable (state : State τ) (env : Environment τ) : Prop :=
  reachesMake state env = true →
    ∃ patched, (startTree state env).bind (applyAll env.patches) = some patched ∧
      env.tarball.bind (applyAll env.patches) = some patched

theorem patchedOnce_iff_appliable (state : State τ) (env : Environment τ) :
    PatchedOnce state env ↔ Appliable state env := by
  constructor
  · intro once reaches
    have ready : extracts state env = true := by
      simp only [reachesMake, Bool.and_eq_true] at reaches
      exact reaches.1.1.1
    obtain ⟨tree, start⟩ := startTree_of_extracts ready
    have made : (step state env).made = some (passAll env.patches tree) := by
      rw [step_made, if_pos reaches, start, Option.map_some]
    obtain ⟨unfailed, whole⟩ := once _ made
    rw [step_failed reaches start] at unfailed
    cases applied : applyAll env.patches tree with
    | none =>
        rw [applied] at unfailed
        contradiction
    | some patched =>
        rw [passAll_of_applyAll applied] at whole
        refine ⟨patched, ?_, whole⟩
        rw [start]
        exact applied
  · intro appliable result made
    rw [step_made] at made
    split at made
    next reaches =>
      obtain ⟨patched, onStart, onTarball⟩ := appliable reaches
      obtain ⟨tree, start, applied⟩ := Option.bind_eq_some_iff.mp onStart
      rw [start, Option.map_some, passAll_of_applyAll applied] at made
      obtain rfl := Option.some.inj made
      constructor
      · rw [step_failed reaches start, applied]
        rfl
      · exact onTarball
    next => contradiction

/-- A run that unpacks the tarball is as good as its patches. -/
theorem appliable_of_unpacked {state : State τ} {env : Environment τ}
    (unpacked : env.clean = true ∨ state.source = none) :
    Appliable state env ↔
      (reachesMake state env = true → ∃ patched, env.tarball.bind (applyAll env.patches) =
        some patched) := by
  have start : startTree state env = env.tarball := by
    rcases unpacked with clean | absent
    · rw [startTree, if_pos clean]
    · rw [startTree, absent, Option.none_or, ite_self]
  rw [Appliable, start]
  simp

/-- A run over a source that is already patched is right only if its patches leave
that source as it is. -/
theorem appliable_of_patched {state : State τ} {env : Environment τ} {patched : τ}
    (keeps : env.clean = false) (source : state.source = some patched)
    (once : env.tarball.bind (applyAll env.patches) = some patched) :
    Appliable state env ↔
      (reachesMake state env = true → applyAll env.patches patched = some patched) := by
  have start : startTree state env = some patched := by
    rw [startTree, keeps, source]
    rfl
  rw [Appliable, start, once]
  simp

/-- Over any number of runs, every tree handed to `make` is the tarball's tree with
each patch applied once, and no patch has failed, exactly if in each of the runs that
reach `make` the patches apply to the tree found and lead where they lead from the
tarball. -/
theorem patchedOnce_along_iff (state : State τ) (runs : List (Environment τ)) :
    Along step PatchedOnce state runs ↔ Along step Appliable state runs :=
  along_congr patchedOnce_iff_appliable state runs

/-- A patch that replaces a line of a one-file source. -/
def replaceLine (old new : String) : Patch (List String) :=
  fun lines =>
    if old ∈ lines then .ok (lines.map fun line => if line = old then new else line)
    else .error lines

/-- An untroubled run with one patch. -/
def plainRun (patch : Patch (List String)) (clean : Bool) : Environment (List String) where
  tarball := some ["int a;", "int b;"]
  patches := [patch]
  clean := clean
  linux := true
  makesDirectories := true
  removes := true
  kept := id
  unpacks := true
  written := none
  interrupted := fun _ => false
  hunks := fun _ => id
  configures := true
  makes := true

/-- Runs with a good patch that unpack the tarball each time meet the condition. -/
theorem unpackingRuns_patchedOnce :
    Along step PatchedOnce .start [plainRun (replaceLine "int b;" "long b;") false,
      plainRun (replaceLine "int b;" "long b;") true,
      plainRun (replaceLine "int b;" "long b;") true] := by
  rw [patchedOnce_along_iff]
  have applies : ∀ clean, ∃ patched,
      (plainRun (replaceLine "int b;" "long b;") clean).tarball.bind
        (applyAll (plainRun (replaceLine "int b;" "long b;") clean).patches) = some patched :=
    fun clean => ⟨["int a;", "long b;"], by cases clean <;> decide +kernel⟩
  constructor
  · exact (appliable_of_unpacked (.inr rfl)).mpr fun _ => applies false
  constructor
  · exact (appliable_of_unpacked (.inl rfl)).mpr fun _ => applies true
  constructor
  · exact (appliable_of_unpacked (.inl rfl)).mpr fun _ => applies true
  · trivial

/-- A patch for a line that the tarball does not have fails, and the run hands the
unpatched tree to `make`. -/
theorem strayPatch_not_patchedOnce :
    ¬ Along step PatchedOnce .start [plainRun (replaceLine "int c;" "long c;") false] := by
  intro safe
  obtain ⟨once, _⟩ := safe
  have made : (step .start (plainRun (replaceLine "int c;" "long c;") false)).made =
      some ["int a;", "int b;"] := by
    decide +kernel
  have inapplicable : (plainRun (replaceLine "int c;" "long c;") false).tarball.bind
      (applyAll (plainRun (replaceLine "int c;" "long c;") false).patches) = none := by
    decide +kernel
  obtain ⟨_, whole⟩ := once _ made
  rw [inapplicable] at whole
  contradiction

end AqjOs.Build.Patches
