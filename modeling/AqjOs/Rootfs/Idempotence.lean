import AqjOs.Rootfs.HostSafety
import AqjOs.Rootfs.Installation

/-!
# Running the script again

On a rootfs that is laid out as the script and its packages lay it out, a run
has fixed effects at every path, except for the last link of the runit
configuration: where `runsvdir/current` is a link already, `ln -sf` follows it
and puts its link into the directory of the default services.
-/

namespace AqjOs.Rootfs

open AqjOs.Files AqjOs.Shell AqjOs.Shell.Script

/-! ## Repeated effects -/

section Repeated

variable {setting : Setting} {effects : List Effect} {path : Path}

theorem style_stable (setting : Setting) (path : Path) :
    (style setting.env path).Stable (slot setting path).Admits := by
  have bits : ∀ mode, (mode ||| setting.env.executeBits) ||| setting.env.executeBits =
      mode ||| setting.env.executeBits := by
    intro mode
    rw [Nat.or_assoc, Nat.or_self]
  unfold style
  split
  · split
    · trivial
    · split
      · exact bits
      · exact bits
  · split
    · exact bits
    · trivial
    · exact bits
  · split
    · rename_i listed
      intro content mode possible
      rw [slot_library listed] at possible
      exact (possible _ rfl).2.2 content mode rfl
    · trivial
  · trivial

/-- Tidy effects settle a node once and for all. -/
theorem all_tidy_idempotent (tidy : ∀ effect ∈ effects, Tidy setting effect)
    {node : Option (Node String)} (possible : (slot setting path).Admits node) :
    Effect.all effects path (Effect.all effects path node) = Effect.all effects path node := by
  apply Change.all_idempotent _ (style_stable setting path) _ possible
  · intro change member node admitted
    obtain ⟨effect, inEffects, rfl⟩ := List.mem_map.mp member
    exact (tidy effect inEffects).admits path node admitted
  · intro change member
    obtain ⟨effect, inEffects, rfl⟩ := List.mem_map.mp member
    exact (tidy effect inEffects).settles path

theorem neat_all (neat : ∀ effect ∈ effects, Neat setting effect) :
    Neat setting (Effect.all effects) := by
  induction effects with
  | nil => exact ⟨fun _ _ possible => possible, fun _ => Change.keeps_id⟩
  | cons effect effects ih =>
      have first := neat effect (by simp)
      have rest := ih fun other member => neat other (by simp [member])
      constructor
      · intro path node possible
        exact rest.admits path _ (first.admits path node possible)
      · intro path node present
        exact rest.keeps path _ (first.keeps path node present)

theorem all_eq_of_id (apart : ∀ effect ∈ effects, effect path = id)
    (node : Option (Node String)) : Effect.all effects path node = node := by
  induction effects with
  | nil => rfl
  | cons effect effects ih =>
      rw [Effect.all_cons, apart effect (by simp)]
      exact ih fun other member => apart other (by simp [member])

end Repeated

/-! ## The link to the default services -/

section Current

variable {setting : Setting} {tree : Host}

/-- Where `ln -sf default current` puts its link. -/
def currentPlace (project : Project) (tree : Host) : Path :=
  if tree.holdsLink (project.rootfs currentPath) then loopPath else currentPath

theorem Fit.current_of_holdsLink (fit : Fit setting tree)
    (linked : tree.holdsLink (setting.project.rootfs currentPath) = true) :
    tree.node (setting.project.rootfs currentPath) = some (.link defaultTarget) := by
  obtain ⟨node, there, isLink⟩ := (Option.any_eq_true _ _).mp linked
  have admits := fit.admits currentPath
  have slotted : slot setting currentPath = .link [defaultTarget] := slot_link (by decide)
  rw [slotted, there] at admits
  obtain ⟨target, rfl⟩ : ∃ target, node = .link target := by
    cases node <;> simp_all [Node.isLink]
  obtain rfl : target = defaultTarget := by simpa using (admits _ rfl).2 target rfl
  exact there

theorem resolve_current (ready : Ready setting baseDirectories tree)
    (linked : tree.holdsLink (setting.project.rootfs currentPath) = true) :
    tree.resolve (setting.project.rootfs currentPath) =
      some (setting.project.rootfs defaultDirectory) := by
  have there := ready.fit.current_of_holdsLink linked
  have held : tree.holdsDirectory (setting.project.rootfs defaultDirectory) = true :=
    ready.holdsDirectory (by decide) (slot_directory (by decide))
  obtain ⟨mode, directory⟩ := LinkTree.holdsDirectory_iff.mp held
  have above : setting.project.rootfs currentPath =
      setting.project.rootfs ["etc", "runit", "runsvdir"] ++ ["current"] := by
    rw [rootfs_append]
    rfl
  have below : setting.project.rootfs defaultDirectory =
      setting.project.rootfs ["etc", "runit", "runsvdir"] ++ ["default"] := by
    rw [rootfs_append]
    rfl
  have plain : ∀ name ∈ setting.project.rootfs currentPath, LinkTree.Plain name :=
    plain_rootfs (by decide)
  rw [above] at there plain ⊢
  rw [below] at directory ⊢
  rw [LinkTree.resolve_link plain there]
  simp only [defaultTarget, LinkTree.walk, LinkTree.maxLinks, Bool.false_eq_true, if_false]
  rw [LinkTree.walkWith_cons (by decide), directory]
  rfl

theorem currentPlace_mem (project : Project) (tree : Host) :
    currentPlace project tree ∈ [currentPath, loopPath] := by
  unfold currentPlace
  split
  · simp
  · simp

theorem neat_current (tree : Host) :
    Neat setting (Effect.single (currentPlace setting.project tree)
      (Change.replace (.link defaultTarget))) := by
  rcases List.mem_pair.mp (currentPlace_mem setting.project tree) with here | here
  · rw [here]
    have role : role currentPath = .link [defaultTarget] := by decide
    exact (tidy_link role (by simp)).toNeat
  · rw [here]
    apply neat_replace
    rw [slot_loop]
    rintro node ⟨⟩
    rfl

/-- The link goes to `current`, or through it into the default services. -/
theorem link_current (ready : Ready setting baseDirectories tree) :
    ∃ next, exec (.run (link setting.project defaultTarget currentPath)) tree =
        .continues next ∧
      Acted setting.project (Effect.all [Effect.single (currentPlace setting.project tree)
        (Change.replace (.link defaultTarget))]) tree next := by
  have fit := ready.fit
  have placed : Placed setting baseDirectories currentPath :=
    ⟨by decide, by decide, by decide, slot_directory (by decide)⟩
  have plain : ∀ name ∈ setting.project.rootfs currentPath, LinkTree.Plain name :=
    plain_rootfs placed.plain
  have proper : setting.project.rootfs currentPath ≠ [] := by simp [Project.rootfs]
  have above := placed.above ready
  have role : role currentPath = .link [defaultTarget] := by decide
  unfold currentPlace
  cases linked : tree.holdsLink (setting.project.rootfs currentPath) with
  | true =>
      have resolved := resolve_current ready linked
      have held : tree.holdsDirectory (setting.project.rootfs defaultDirectory) = true :=
        ready.holdsDirectory (by decide) (slot_directory (by decide))
      have leads : tree.isDirectory (setting.project.rootfs currentPath) = true := by
        rw [LinkTree.isDirectory, resolved, Option.any_some]
        exact held
      have located :
          tree.locate (tree.linkPath defaultTarget (setting.project.rootfs currentPath)) =
            some (setting.project.rootfs loopPath) := by
        rw [LinkTree.linkPath, if_pos leads, LinkTree.locate, List.getLast?_concat,
          Option.bind_some, List.dropLast_concat, resolved, Option.bind_some, if_pos held,
          rootfs_append]
        rfl
      obtain ⟨next, set⟩ : ∃ next,
          tree.set (setting.project.rootfs loopPath) (.link defaultTarget) = some next := by
        apply LinkTree.exists_set (by simp [Project.rootfs])
        · rw [rootfs_dropLast (by decide)]
          exact held
        · intro directory
          obtain ⟨mode, there⟩ := LinkTree.holdsDirectory_iff.mp directory
          have admits := fit.admits loopPath
          rw [slot_loop, there] at admits
          have impossible := admits _ rfl
          contradiction
      have done : tree.symlink defaultTarget (setting.project.rootfs currentPath) = some next := by
        rw [LinkTree.symlink, located, Option.bind_some]
        exact set
      refine ⟨next, ?_, acted_of_set set rfl⟩
      simp only [exec, link, Command.ofOption, done]
  | false =>
      have notHeld : tree.holdsDirectory (setting.project.rootfs currentPath) = false :=
        fit.not_holdsDirectory_link role
      have notDirectory : tree.isDirectory (setting.project.rootfs currentPath) = false := by
        rw [LinkTree.isDirectory, LinkTree.resolve_here plain proper above linked,
          Option.any_some]
        exact notHeld
      obtain ⟨next, set⟩ : ∃ next,
          tree.set (setting.project.rootfs currentPath) (.link defaultTarget) = some next := by
        apply LinkTree.exists_set proper above
        rw [notHeld]
        exact fun impossible => absurd impossible (by simp)
      have done : tree.symlink defaultTarget (setting.project.rootfs currentPath) = some next := by
        rw [LinkTree.symlink_here plain proper above defaultTarget notDirectory]
        exact set
      refine ⟨next, ?_, acted_of_set set rfl⟩
      simp only [exec, link, Command.ofOption, done]

end Current

/-! ## The script around that link -/

/-- Everything after the runit configuration. -/
def populateLater (project : Project) (env : Environment) : Script Host :=
  .seq (.block [linkInit project, writeFstab project env])
    (.seq (.block [runBuilder project env .glibc, sanitizeLibraries project])
      (.seq (.block [runBuilder project env .busybox, populateRest project env])
        (installInstaller project env)))

theorem exec_populate (project : Project) (env : Environment) (tree : Host) :
    exec (populate project env) tree =
      exec (.seq (makeTree project env) (.seq (setupRunit project env)
        (populateLater project env))) tree := by
  have regrouped (first second third fourth fifth sixth : Script Host) :
      exec (.seq (.seq (.seq (.seq first (.seq second third)) fourth) fifth) sixth) tree =
        exec (.seq first (.seq second (.seq third (.seq fourth (.seq fifth sixth))))) tree := by
    rw [exec_seq_assoc, exec_seq_assoc, exec_seq_assoc]
    exact exec_seq_congr (fun next => exec_seq_assoc _ _ _ next) tree
  exact regrouped _ _ _ _ _ _

theorem exec_configureRunit {project : Project} {env : Environment} (config : RunitConfig)
    (later : Script Host) (tree : Host) :
    exec (.seq (configureRunit project env config) later) tree =
      exec (.seq (configureFiles project env config)
        (.seq (.run (link project defaultTarget currentPath)) later)) tree := by
  have regrouped (first second third fourth fifth : Script Host) :
      exec (.seq (.seq first (.seq second (.seq third (.seq fourth (.seq fifth .skip))))) later)
          tree =
        exec (.seq (.seq first (.seq second (.seq third fourth))) (.seq fifth later)) tree := by
    rw [exec_seq_assoc, exec_seq_assoc]
    apply exec_seq_congr
    intro tree
    rw [exec_seq_assoc, exec_seq_assoc]
    apply exec_seq_congr
    intro tree
    rw [exec_seq_assoc, exec_seq_assoc]
    apply exec_seq_congr
    intro tree
    rw [exec_seq_assoc]
    apply exec_seq_congr
    intro tree
    rw [exec_seq_assoc]
    exact exec_seq_congr (fun _ => rfl) tree
  exact regrouped _ _ _ _ _

/-! ## One run -/

section Run

variable {setting : Setting} {succeeds : Package → Bool}

theorem exists_settles_populateRest (packaged : Packaged setting succeeds)
    (orderly : Orderly setting.env) (hostFree : HostFree setting) :
    ∃ goesOn, Settles setting (Reserved setting.env) baseDirectories
      (populateRest setting.project setting.env) goesOn baseDirectories := by
  have base : baseDirectories ⊆ baseDirectories := fun _ member => member
  have built (package : Package) := packaged.settles_runBuilder hostFree package base
  apply exists_settles_seq (built .utilLinux)
  apply exists_settles_seq (built .eudev)
  apply exists_settles_seq (built .iwd)
  apply exists_settles_seq settles_configureIwd
  apply exists_settles_seq (settles_enableService orderly hostFree (by simp) base)
  apply exists_settles_seq (built .dhcpcd)
  apply exists_settles_seq (settles_configureDhcpcd (base (by decide)))
  apply exists_settles_seq (settles_enableService orderly hostFree (by simp) base)
  apply exists_settles_seq (built .xbps)
  apply exists_settles_seq settles_configureXbps
  apply exists_settles_seq (built .xbpsSrc)
  apply exists_settles_seq (built .bash)
  apply exists_settles_seq (built .xorgServer)
  apply exists_settles_seq (built .xfdesktop)
  exact ⟨true, settles_skip⟩

theorem exists_settles_populateLater (packaged : Packaged setting succeeds)
    (orderly : Orderly setting.env) (hostFree : HostFree setting) :
    ∃ goesOn, Settles setting (Reserved setting.env) baseDirectories
      (populateLater setting.project setting.env) goesOn baseDirectories := by
  have base : baseDirectories ⊆ baseDirectories := fun _ member => member
  have built (package : Package) := packaged.settles_runBuilder hostFree package base
  have early : ∃ goesOn, Settles setting (Reserved setting.env) baseDirectories
      (.block [linkInit setting.project, writeFstab setting.project setting.env]) goesOn
      baseDirectories := by
    apply exists_settles_seq (settles_linkInit hostFree (base (by decide)))
    apply exists_settles_seq (settles_writeFstab (base (by decide)))
    exact ⟨true, settles_skip⟩
  have glibc : ∃ goesOn, Settles setting (Reserved setting.env) baseDirectories
      (.block [runBuilder setting.project setting.env .glibc,
        sanitizeLibraries setting.project]) goesOn baseDirectories := by
    apply exists_settles_seq (built .glibc)
    apply exists_settles_seq
    · apply settles_then (settles_sanitizeLibrary (by decide) (base (by decide)))
      apply settles_then (settles_sanitizeLibrary (by decide) (base (by decide)))
      exact settles_skip
    · exact ⟨true, settles_skip⟩
  have middle : ∃ goesOn, Settles setting (Reserved setting.env) baseDirectories
      (.block [runBuilder setting.project setting.env .busybox,
        populateRest setting.project setting.env]) goesOn baseDirectories := by
    obtain ⟨_, rest⟩ := exists_settles_populateRest packaged orderly hostFree
    apply exists_settles_seq (built .busybox)
    apply exists_settles_seq rest
    exact ⟨true, settles_skip⟩
  obtain ⟨_, early⟩ := early
  obtain ⟨_, glibc⟩ := glibc
  obtain ⟨_, middle⟩ := middle
  apply exists_settles_seq early
  apply exists_settles_seq glibc
  apply exists_settles_seq middle
  exact ⟨true, settles_installInstaller⟩

/-- What a run has done to a rootfs with a runit configuration: fixed effects, and
one link. -/
structure Ran (setting : Setting) (effects : List Effect) (tree next : Host) : Prop where
  fit : Fit setting next
  inside : ∀ path ∉ [currentPath, loopPath], next.node (setting.project.rootfs path) =
    Effect.all effects path (tree.node (setting.project.rootfs path))
  elsewhere : ∀ place, (∀ path, place ≠ setting.project.rootfs path) →
    next.node place = tree.node place
  current : next.node (setting.project.rootfs currentPath) = some (.link defaultTarget)
  loop : next.node (setting.project.rootfs loopPath) =
    if tree.holdsLink (setting.project.rootfs currentPath) then some (.link defaultTarget)
    else tree.node (setting.project.rootfs loopPath)

/-- Effects that leave the two paths alone, around the link. -/
theorem ran_of_acted {early late : List Effect} {tree first second third : Host}
    (fit : Fit setting tree)
    (tidyEarly : ∀ effect ∈ early, Tidy setting effect ∧
      ∀ path ∈ [currentPath, loopPath], effect path = id)
    (tidyLate : ∀ effect ∈ late, Tidy setting effect ∧
      ∀ path ∈ [currentPath, loopPath], effect path = id)
    (actedEarly : Acted setting.project (Effect.all early) tree first)
    (actedLink : Acted setting.project
      (Effect.all [Effect.single (currentPlace setting.project first)
        (Change.replace (.link defaultTarget))]) first second)
    (actedLate : Acted setting.project (Effect.all late) second third) :
    Ran setting (early ++ late) tree third := by
  have neatEarly : Neat setting (Effect.all early) :=
    neat_all fun effect member => (tidyEarly effect member).1.toNeat
  have neatLate : Neat setting (Effect.all late) :=
    neat_all fun effect member => (tidyLate effect member).1.toNeat
  have fitFirst := fit.acted neatEarly actedEarly
  have fitSecond := fitFirst.acted (neat_current first) actedLink
  have untouched : ∀ path ∈ [currentPath, loopPath],
      first.node (setting.project.rootfs path) = tree.node (setting.project.rootfs path) ∧
        third.node (setting.project.rootfs path) =
          second.node (setting.project.rootfs path) := by
    intro path member
    rw [actedEarly.inside, actedLate.inside]
    exact ⟨all_eq_of_id (fun effect inList => (tidyEarly effect inList).2 path member) _,
      all_eq_of_id (fun effect inList => (tidyLate effect inList).2 path member) _⟩
  have linked : ∀ path, second.node (setting.project.rootfs path) =
      if path = currentPlace setting.project first then some (.link defaultTarget)
      else first.node (setting.project.rootfs path) := by
    intro path
    rw [actedLink.inside, Effect.all_cons, Effect.all_nil, Effect.single]
    split
    · rfl
    · rfl
  have same : first.holdsLink (setting.project.rootfs currentPath) =
      tree.holdsLink (setting.project.rootfs currentPath) := by
    rw [LinkTree.holdsLink, LinkTree.holdsLink, (untouched currentPath (by simp)).1]
  have apart : currentPath ≠ loopPath := by decide
  constructor
  · exact fitSecond.acted neatLate actedLate
  · intro path other
    have away : path ≠ currentPlace setting.project first := by
      rintro rfl
      exact other (currentPlace_mem setting.project first)
    rw [actedLate.inside, linked, if_neg away, actedEarly.inside, Effect.all_append]
  · intro place beyond
    rw [actedLate.elsewhere place beyond, actedLink.elsewhere place beyond,
      actedEarly.elsewhere place beyond]
  · rw [(untouched currentPath (by simp)).2, linked]
    cases already : first.holdsLink (setting.project.rootfs currentPath) with
    | true => rw [fitFirst.current_of_holdsLink already, ite_self]
    | false =>
        rw [currentPlace, already]
        rfl
  · rw [(untouched loopPath (by simp)).2, linked, ← same]
    cases already : first.holdsLink (setting.project.rootfs currentPath) with
    | true =>
        rw [currentPlace, already]
        rfl
    | false =>
        rw [currentPlace, already, if_neg (by simpa using apart.symm)]
        exact (untouched loopPath (by simp)).1

theorem ran_populateStep (packaged : Packaged setting succeeds) (orderly : Orderly setting.env)
    (hostFree : HostFree setting) {config : RunitConfig}
    (configured : setting.env.runit = some config) :
    ∃ effects, (∀ effect ∈ effects, Tidy setting effect) ∧ ∀ tree, Fit setting tree →
      Ran setting effects tree (populateStep setting.project tree setting.env) := by
  have before := settles_then settles_makeTree
    (settles_configureFiles orderly hostFree configured fun _ member => member)
  obtain ⟨early, tidyEarly, actsEarly⟩ := before
  obtain ⟨goesOn, late, tidyLate, actsLate⟩ :=
    exists_settles_populateLater packaged orderly hostFree
  refine ⟨early ++ late, ?_, ?_⟩
  · intro effect member
    rcases List.mem_append.mp member with inEarly | inLate
    · exact (tidyEarly effect inEarly).1
    · exact (tidyLate effect inLate).1
  · intro tree fit
    have start : Ready setting [] tree := ⟨fit, by simp⟩
    obtain ⟨running, actedEarly, ready⟩ := actsEarly tree start
    have continued := Outcome.eq_continues_of_running running
    generalize (exec (.seq (makeTree setting.project setting.env)
      (configureFiles setting.project setting.env config)) tree).state = first
      at actedEarly ready continued
    obtain ⟨second, linked, actedLink⟩ := link_current (ready rfl)
    have readyLate := (ready rfl).acted (neat_current first) actedLink
    obtain ⟨_, actedLate, _⟩ := actsLate second readyLate
    have whole : populateStep setting.project tree setting.env =
        (exec (populateLater setting.project setting.env) second).state := by
      have setup : setupRunit setting.project setting.env =
          configureRunit setting.project setting.env config := by
        rw [setupRunit, configured]
      rw [populateStep, exec_populate, setup,
        exec_seq_congr (exec_configureRunit config _), ← exec_seq_assoc,
        exec_seq_of_continues continued, exec_seq_of_continues linked]
    have reserved : ∀ path ∈ [currentPath, loopPath], Reserved setting.env path := by
      intro path member
      rw [Reserved, configured]
      exact member
    rw [whole]
    apply ran_of_acted fit _ _ actedEarly actedLink actedLate
    · intro effect member
      obtain ⟨tidy, apart⟩ := tidyEarly effect member
      exact ⟨tidy, fun path inList => apart path (reserved path inList)⟩
    · intro effect member
      obtain ⟨tidy, apart⟩ := tidyLate effect member
      exact ⟨tidy, fun path inList => apart path (reserved path inList)⟩

theorem acted_populateStep (packaged : Packaged setting succeeds)
    (orderly : Orderly setting.env) (hostFree : HostFree setting)
    (unconfigured : setting.env.runit = none) :
    ∃ effects, (∀ effect ∈ effects, Tidy setting effect ∧
        ∀ path, Reserved setting.env path → effect path = id) ∧
      ∀ tree, Fit setting tree → Acted setting.project (Effect.all effects) tree
        (populateStep setting.project tree setting.env) := by
  obtain ⟨_, later⟩ := exists_settles_populateLater packaged orderly hostFree
  obtain ⟨_, effects, tidy, acts⟩ : ∃ goesOn, Settles setting (Reserved setting.env) []
      (.seq (makeTree setting.project setting.env)
        (.seq .skip (populateLater setting.project setting.env))) goesOn baseDirectories := by
    apply exists_settles_seq settles_makeTree
    apply exists_settles_seq settles_skip
    exact ⟨_, later⟩
  refine ⟨effects, tidy, ?_⟩
  intro tree fit
  have start : Ready setting [] tree := ⟨fit, by simp⟩
  have setup : setupRunit setting.project setting.env = .skip := by
    rw [setupRunit, unconfigured]
  rw [populateStep, exec_populate, setup]
  exact (acts tree start).2.1

end Run

/-! ## Any number of runs -/

/-- The tree after a number of runs with the same arguments. -/
def populateRuns (project : Project) (env : Environment) (tree : Host) (runs : Nat) : Host :=
  (fun tree => populateStep project tree env)^[runs] tree

/-- Further runs leave the rootfs as the first one leaves it. -/
def Idempotent (project : Project) (env : Environment) (tree : Host) : Prop :=
  ∀ runs path, (populateRuns project env tree (runs + 1)).node (project.rootfs path) =
    (populateRuns project env tree 1).node (project.rootfs path)

/-- Every entry of the default services is a link to a service, seen with the
rootfs as the root directory. -/
def DefaultsResolve (project : Project) (tree : Host) : Prop :=
  ∀ name node, tree.node (project.rootfs (enabledPath name)) = some node →
    ∃ target service, node = .link target ∧
      tree.resolveIn (project.rootfs []) (enabledPath name) =
        some (project.rootfs ["etc", "sv", service]) ∧
      tree.holdsDirectory (project.rootfs ["etc", "sv", service]) = true

/-- There is nothing in `/etc/runit/runsvdir`. -/
def Unserved (project : Project) (tree : Host) : Prop :=
  ∀ path, ["etc", "runit", "runsvdir"] <+: path → path ≠ ["etc", "runit", "runsvdir"] →
    tree.node (project.rootfs path) = none

/-- The script can be run again. -/
structure Repeatable (project : Project) (env : Environment) (tree : Host) : Prop where
  idempotent : Idempotent project env tree
  defaults : Unserved project tree → ∀ runs,
    DefaultsResolve project (populateRuns project env tree runs)

/-- There is no link to follow, or following it changes nothing. -/
def NoDrift (project : Project) (env : Environment) (tree : Host) : Prop :=
  env.runit = none ∨ tree.holdsLink (project.rootfs currentPath) = true ∨
    tree.node (project.rootfs loopPath) = some (.link defaultTarget)

section Runs

variable {setting : Setting} {succeeds : Package → Bool} {tree : Host}

@[simp]
theorem populateRuns_one (project : Project) (env : Environment) (tree : Host) :
    populateRuns project env tree 1 = populateStep project tree env :=
  rfl

theorem populateRuns_succ (project : Project) (env : Environment) (tree : Host) (runs : Nat) :
    populateRuns project env tree (runs + 1) =
      populateRuns project env (populateStep project tree env) runs :=
  rfl

/-- A tree that a run leaves as it is stays so. -/
theorem populateRuns_fixed {project : Project} {env : Environment}
    (fixed : populateStep project tree env = tree) (runs : Nat) :
    populateRuns project env tree runs = tree := by
  induction runs with
  | zero => rfl
  | succ runs ih => rw [populateRuns_succ, fixed, ih]

theorem idempotent_of_fixed {project : Project} {env : Environment}
    (fixed : populateStep project (populateStep project tree env) env =
      populateStep project tree env) : Idempotent project env tree := by
  intro runs path
  rw [populateRuns_succ, populateRuns_fixed fixed, populateRuns_one]

theorem not_idempotent_of_added {project : Project} {env : Environment} {path : Path}
    (first : (populateRuns project env tree 1).node (project.rootfs path) = none)
    (second : (populateRuns project env tree 2).node (project.rootfs path) ≠ none) :
    ¬ Idempotent project env tree :=
  fun idempotent => second ((idempotent 1 path).trans first)

/-! ### With a runit configuration -/

section Configured

variable {effects : List Effect} {next last : Host}

theorem Ran.holdsLink (ran : Ran setting effects tree next) :
    next.holdsLink (setting.project.rootfs currentPath) = true := by
  rw [LinkTree.holdsLink, ran.current]
  rfl

/-- The second run differs from the first in at most one place. -/
theorem Ran.again (tidy : ∀ effect ∈ effects, Tidy setting effect) (fit : Fit setting tree)
    (ran : Ran setting effects tree next) (ranAgain : Ran setting effects next last) :
    last.node (setting.project.rootfs loopPath) = some (.link defaultTarget) ∧
      (next.node (setting.project.rootfs loopPath) = some (.link defaultTarget) →
        last = next) := by
  have loop : last.node (setting.project.rootfs loopPath) = some (.link defaultTarget) := by
    rw [ranAgain.loop, if_pos ran.holdsLink]
  refine ⟨loop, ?_⟩
  intro already
  ext1
  funext place
  by_cases below : ∃ path, place = setting.project.rootfs path
  · obtain ⟨path, rfl⟩ := below
    by_cases current : path = currentPath
    · rw [current, ranAgain.current, ran.current]
    · by_cases here : path = loopPath
      · rw [here, loop, already]
      · have other : path ∉ [currentPath, loopPath] := by simp [current, here]
        rw [ranAgain.inside path other, ran.inside path other]
        exact all_tidy_idempotent tidy (fit.admits path)
  · exact ranAgain.elsewhere place fun path same => below ⟨path, same⟩

/-- With a configuration, the runs after the first repeat it exactly if the first
one leaves its link in the default services. -/
theorem idempotent_iff_of_configured (packaged : Packaged setting succeeds)
    (orderly : Orderly setting.env) (hostFree : HostFree setting) (fit : Fit setting tree)
    {config : RunitConfig} (configured : setting.env.runit = some config) :
    Idempotent setting.project setting.env tree ↔
      tree.holdsLink (setting.project.rootfs currentPath) = true ∨
        tree.node (setting.project.rootfs loopPath) = some (.link defaultTarget) := by
  obtain ⟨effects, tidy, runs⟩ := ran_populateStep packaged orderly hostFree configured
  have ran := runs tree fit
  obtain ⟨loop, fixed⟩ := ran.again tidy fit (runs _ ran.fit)
  constructor
  · intro idempotent
    have settled : (populateStep setting.project tree setting.env).node
        (setting.project.rootfs loopPath) = some (.link defaultTarget) :=
      (idempotent 1 loopPath).symm.trans loop
    rw [ran.loop] at settled
    by_cases linked : tree.holdsLink (setting.project.rootfs currentPath) = true
    · exact .inl linked
    · rw [if_neg linked] at settled
      exact .inr settled
  · intro present
    apply idempotent_of_fixed
    apply fixed
    rw [ran.loop]
    rcases present with linked | there
    · rw [if_pos linked]
    · rw [there, ite_self]

end Configured

/-! ### Without one -/

section Unconfigured

theorem idempotent_of_unconfigured (packaged : Packaged setting succeeds)
    (orderly : Orderly setting.env) (hostFree : HostFree setting) (fit : Fit setting tree)
    (unconfigured : setting.env.runit = none) :
    Idempotent setting.project setting.env tree := by
  obtain ⟨effects, tidy, acts⟩ := acted_populateStep packaged orderly hostFree unconfigured
  have neat : Neat setting (Effect.all effects) :=
    neat_all fun effect member => (tidy effect member).1.toNeat
  have acted := acts tree fit
  have again := acts _ (fit.acted neat acted)
  apply idempotent_of_fixed
  apply again.unique
  constructor
  · intro path
    rw [acted.inside]
    exact (all_tidy_idempotent (fun effect member => (tidy effect member).1)
      (fit.admits path)).symm
  · intro place _
    rfl

/-- Without a configuration no run touches the default services. -/
theorem enabled_of_unconfigured (packaged : Packaged setting succeeds)
    (orderly : Orderly setting.env) (hostFree : HostFree setting) (fit : Fit setting tree)
    (unconfigured : setting.env.runit = none) (runs : Nat) (name : String) :
    (populateRuns setting.project setting.env tree runs).node
        (setting.project.rootfs (enabledPath name)) =
      tree.node (setting.project.rootfs (enabledPath name)) := by
  obtain ⟨effects, tidy, acts⟩ := acted_populateStep packaged orderly hostFree unconfigured
  have neat : Neat setting (Effect.all effects) :=
    neat_all fun effect member => (tidy effect member).1.toNeat
  have reserved : Reserved setting.env (enabledPath name) := by
    rw [Reserved, unconfigured]
    exact ⟨⟨[name], rfl⟩, by simp [enabledPath, defaultDirectory]⟩
  induction runs generalizing tree with
  | zero => rfl
  | succ runs ih =>
      have acted := acts tree fit
      rw [populateRuns_succ, ih (fit.acted neat acted), acted.inside]
      exact all_eq_of_id (fun effect member => (tidy effect member).2 _ reserved) _

end Unconfigured

/-- On a rootfs that is laid out as the script and its packages lay it out, the
script can be run again exactly if there is no configuration, or the link of an
earlier run is there, or what following it would write is there. -/
theorem repeatable_iff_noDrift (packaged : Packaged setting succeeds)
    (orderly : Orderly setting.env) (hostFree : HostFree setting) (fit : Fit setting tree) :
    Repeatable setting.project setting.env tree ↔
      NoDrift setting.project setting.env tree := by
  cases found : setting.env.runit with
  | none =>
      refine ⟨fun _ => .inl found, fun _ => ⟨?_, ?_⟩⟩
      · exact idempotent_of_unconfigured packaged orderly hostFree fit found
      · intro unserved runs name node there
        rw [enabled_of_unconfigured packaged orderly hostFree fit found,
          unserved (enabledPath name) ⟨["default", name], rfl⟩ (by simp [enabledPath])] at there
        contradiction
  | some config =>
      have exactly := idempotent_iff_of_configured packaged orderly hostFree fit found
      constructor
      · intro repeatable
        exact .inr (exactly.mp repeatable.idempotent)
      · intro noDrift
        have present := noDrift.resolve_left (by simp [found])
        refine ⟨exactly.mpr present, ?_⟩
        intro unserved
        -- with nothing in `runsvdir`, neither of the two links is there
        have noCurrent := unserved currentPath ⟨["current"], rfl⟩ (by decide)
        have noLoop := unserved loopPath ⟨["default", "default"], rfl⟩ (by decide)
        rw [LinkTree.holdsLink, noCurrent, noLoop] at present
        simp at present

end Runs


/-! ## The small build again -/

/-- The small build on a host with nothing but the project. -/
def smallSetting : Setting where
  project := smallProject
  host := bareHost
  env := smallBuild
  manifest := smallManifest
  getty _ := false

theorem smallBuild_install_idempotent (package : Package) (tree : Host) :
    (smallBuild.install package (smallBuild.install package tree).2).2 =
      (smallBuild.install package tree).2 := by
  cases package with
  | busybox =>
      simp only [smallBuild, Command.ofOption]
      cases first : tree.set (smallProject.rootfs ["sbin", "init"]) (.link busyboxTarget) with
      | none => simp only [first]
      | some next =>
          cases second : next.set (smallProject.rootfs ["sbin", "init"]) (.link busyboxTarget) with
          | none => rfl
          | some last =>
              simp only
              ext1
              funext place
              rw [LinkTree.node_set second, LinkTree.node_set first]
              split
              · rfl
              · rfl
  | _ => rfl

theorem bareHost_unserved : Unserved smallProject bareHost := by
  rintro path ⟨rest, rfl⟩ _
  cases found : bareHost.node (smallProject.rootfs (["etc", "runit", "runsvdir"] ++ rest)) with
  | none => rfl
  | some node =>
      rcases LinkTree.mem_of_node_ofEntries found with root | listed
      · simp [Project.rootfs, smallProject] at root
      · simp [Project.rootfs, smallProject] at listed

/-- The second run on an empty rootfs adds a link to itself to the default
services. -/
theorem secondRun_drifts :
    (∀ package tree, (smallBuild.install package (smallBuild.install package tree).2).2 =
        (smallBuild.install package tree).2) ∧
      Unserved smallProject bareHost ∧ ¬ Idempotent smallProject smallBuild bareHost ∧
      ¬ DefaultsResolve smallProject (populateRuns smallProject smallBuild bareHost 2) := by
  have first : (populateRuns smallProject smallBuild bareHost 1).node
      (smallProject.rootfs (enabledPath "default")) = none := by
    decide +kernel
  have second : (populateRuns smallProject smallBuild bareHost 2).node
      (smallProject.rootfs (enabledPath "default")) = some (.link defaultTarget) := by
    decide +kernel
  refine ⟨smallBuild_install_idempotent, bareHost_unserved, ?_, ?_⟩
  · apply not_idempotent_of_added first
    rw [second]
    exact Option.some_ne_none _
  · intro resolve
    obtain ⟨_, _, _, leads, _⟩ := resolve "default" _ second
    have nowhere : (populateRuns smallProject smallBuild bareHost 2).resolveIn
        (smallProject.rootfs []) (enabledPath "default") = none := by
      decide +kernel
    rw [nowhere] at leads
    exact Option.some_ne_none _ leads.symm

theorem smallSetting_orderly : Orderly smallSetting.env := by
  constructor
  · decide
  · decide
  · decide
  · intro name member mode
    have missing : ∀ name ∈ ["iwd", "dhcpcd"],
        smallSetting.env.services.lookup [name, "run"] = none := by
      decide
    rw [missing name member]
    exact nofun

theorem smallSetting_hostFree : HostFree smallSetting := by
  have checked : ∀ entry ∈ links, ∀ target ∈ entry.2, target.absolute = true →
      ∃ name ∈ ["etc", "sbin", "bin"], target.names.head? = some name := by
    decide
  have beyond : ∀ name ∈ ["etc", "sbin", "bin"], LinkTree.Plain name ∧
      ¬ smallProject.path <+: [name] := by
    decide
  intro entry listed target member absolute
  obtain ⟨name, known, head⟩ := checked entry listed target member absolute
  obtain ⟨rest, names⟩ := List.head?_eq_some_iff.mp head
  rw [names]
  exact noHostDirectory_of_missing (beyond name known).1 (beyond name known).2
    (bareHost_bare name known) rest

theorem smallSetting_admits_none (path : Path) : (slot smallSetting path).Admits none := by
  have none_of : ∀ there : Slot, there ≠ .getty true → there.Admits none := by
    intro there
    cases there with
    | getty there => cases there <;> simp [Slot.Admits]
    | _ => simp [Slot.Admits]
  apply none_of
  unfold slot serviceSlot
  repeat' split
  all_goals simp [smallSetting]

theorem smallSetting_fit : Fit smallSetting bareHost := by
  refine ⟨by decide +kernel, fun _ _ => rfl, ?_⟩
  intro path
  change (slot smallSetting path).Admits (bareHost.node (smallProject.rootfs path))
  cases found : bareHost.node (smallProject.rootfs path) with
  | none => exact smallSetting_admits_none path
  | some node =>
      rcases LinkTree.mem_of_node_ofEntries found with root | listed
      · simp [Project.rootfs, smallProject] at root
      · simp [Project.rootfs, smallProject] at listed
        obtain ⟨rfl, rfl⟩ := listed
        rw [slot_directory (by decide)]
        rintro present ⟨⟩
        rfl

theorem smallSetting_packaged : Packaged smallSetting fun _ => true := by
  have placed : Placed smallSetting baseDirectories ["sbin", "init"] :=
    ⟨by decide, by decide, by decide, slot_directory (by decide)⟩
  have role : role ["sbin", "init"] = .link [initTarget, busyboxTarget] := by decide
  have busybox : ∀ tree, Ready smallSetting baseDirectories tree → ∃ next,
      tree.set (smallProject.rootfs ["sbin", "init"]) (.link busyboxTarget) = some next := by
    intro tree ready
    apply LinkTree.exists_set (by simp [Project.rootfs])
    · exact placed.above ready
    · intro held
      have notHeld : tree.holdsDirectory (smallProject.rootfs ["sbin", "init"]) = false :=
        ready.fit.not_holdsDirectory_link role
      rw [notHeld] at held
      contradiction
  have listed : ∀ package path node, smallManifest package path = some node →
      path = ["sbin", "init"] ∧ node = .link busyboxTarget := by
    intro package path node found
    unfold smallManifest at found
    split at found
    · cases found
      rename_i applet
      exact ⟨applet.2, rfl⟩
    · contradiction
  constructor
  · rfl
  · intro package path node found
    obtain ⟨rfl, rfl⟩ := listed package path node found
    rw [slot_link role]
    rintro present ⟨⟩
    refine ⟨rfl, ?_⟩
    rintro target ⟨⟩
    simp
  · intro package path found
    obtain ⟨node, found⟩ := Option.isSome_iff_exists.mp found
    obtain ⟨rfl, _⟩ := listed package path node found
    decide
  · intro package tree ready
    cases package with
    | busybox =>
        obtain ⟨next, set⟩ := busybox tree ready
        simp [smallSetting, smallBuild, Command.ofOption, set]
    | _ => rfl
  · intro package tree ready
    cases package with
    | busybox =>
        obtain ⟨next, set⟩ := busybox tree ready
        have same : overlay (smallManifest .busybox) = Effect.all
            [Effect.single ["sbin", "init"] (Change.replace (.link busyboxTarget))] := by
          funext path node
          rw [Effect.all_cons, Effect.all_nil]
          by_cases here : path = ["sbin", "init"]
          · simp [overlay, smallManifest, Effect.single, here]
          · simp [overlay, smallManifest, Effect.single, here]
        have ended : smallSetting.env.install .busybox tree = (.success, next) := by
          simp only [smallSetting, smallBuild, Command.ofOption, set]
        change Acted smallProject (overlay (smallManifest .busybox)) tree _
        rw [same, ended]
        exact acted_of_set set rfl
    | _ => exact .refl

/-- After a first run the script can be run again. -/
theorem firstRun_repeatable :
    NoDrift smallProject smallBuild (populateStep smallProject bareHost smallBuild) ∧
      Repeatable smallProject smallBuild (populateStep smallProject bareHost smallBuild) := by
  have configured : smallSetting.env.runit = some smallRunit := rfl
  obtain ⟨effects, _, runs⟩ := ran_populateStep smallSetting_packaged smallSetting_orderly
    smallSetting_hostFree configured
  have ran := runs bareHost smallSetting_fit
  have exactly := repeatable_iff_noDrift smallSetting_packaged smallSetting_orderly
    smallSetting_hostFree ran.fit
  have noDrift : NoDrift smallProject smallBuild
      (populateStep smallProject bareHost smallBuild) :=
    .inr (.inl ran.holdsLink)
  exact ⟨noDrift, exactly.mpr noDrift⟩

end AqjOs.Rootfs
