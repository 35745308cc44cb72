import AqjOs.Rootfs.Slots

/-!
# The script as changes of single nodes

An effect gives a change to every path below the rootfs.  `Acts` says that a part
of the script, from every tree that is ready for it, ends in a given way and has
exactly a given list of effects; `Settles` hides the list and asks of its effects
that they keep the slots in order and are fit to be repeated.
-/

namespace AqjOs.Rootfs

open AqjOs.Files AqjOs.Shell AqjOs.Shell.Script

/-- A change for every path below the rootfs. -/
abbrev Effect := Path → Change String

namespace Effect

/-- Several effects, one after another. -/
def all (effects : List Effect) : Effect :=
  fun path => Change.all (effects.map fun effect => effect path)

/-- A change of a single path. -/
def single (path : Path) (change : Change String) : Effect :=
  fun other => if other = path then change else id

theorem single_apart {region : Path → Prop} {path other : Path} {change : Change String}
    (apart : ¬ region path) (inRegion : region other) : single path change other = id := by
  apply if_neg
  rintro rfl
  exact apart inRegion

theorem all_nil (path : Path) (node : Option (Node String)) : all [] path node = node :=
  rfl

theorem all_cons (effect : Effect) (effects : List Effect) (path : Path)
    (node : Option (Node String)) :
    all (effect :: effects) path node = all effects path (effect path node) :=
  rfl

theorem all_append (first second : List Effect) (path : Path) (node : Option (Node String)) :
    all (first ++ second) path node = all second path (all first path node) := by
  rw [all, all, all, List.map_append, Change.all_append]

end Effect

/-- The effect is all that has happened to the tree. -/
structure Acted (project : Project) (effect : Effect) (tree next : Host) : Prop where
  inside : ∀ path, next.node (project.rootfs path) =
    effect path (tree.node (project.rootfs path))
  elsewhere : ∀ place, (∀ path, place ≠ project.rootfs path) → next.node place = tree.node place

section Acted

variable {project : Project} {tree middle next : Host}

theorem Acted.refl : Acted project (Effect.all []) tree tree :=
  ⟨fun _ => rfl, fun _ _ => rfl⟩

theorem Acted.trans {first second : List Effect}
    (early : Acted project (Effect.all first) tree middle)
    (late : Acted project (Effect.all second) middle next) :
    Acted project (Effect.all (first ++ second)) tree next := by
  constructor
  · intro path
    rw [late.inside, early.inside, Effect.all_append]
  · intro place other
    rw [late.elsewhere place other, early.elsewhere place other]

/-- What happened to the tree determines it. -/
theorem Acted.unique {effect : Effect} {other : Host} (acted : Acted project effect tree next)
    (alsoActed : Acted project effect tree other) : next = other := by
  ext1
  funext place
  by_cases below : ∃ path, place = project.rootfs path
  · obtain ⟨path, rfl⟩ := below
    rw [acted.inside, alsoActed.inside]
  · have outside : ∀ path, place ≠ project.rootfs path := fun path same => below ⟨path, same⟩
    rw [acted.elsewhere place outside, alsoActed.elsewhere place outside]

theorem acted_of_set {path : Path} {new : Node String} {change : Change String}
    (placed : tree.set (project.rootfs path) new = some next)
    (same : change (tree.node (project.rootfs path)) = some new) :
    Acted project (Effect.all [Effect.single path change]) tree next := by
  constructor
  · intro other
    rw [LinkTree.node_set placed, Effect.all_cons, Effect.all_nil, Effect.single]
    by_cases here : other = path
    · subst here
      simp [same]
    · simp [here]
  · intro place outside
    rw [LinkTree.node_set placed, if_neg (outside path)]

theorem acted_of_fixed {path : Path} {change : Change String}
    (fixed : change (tree.node (project.rootfs path)) = tree.node (project.rootfs path)) :
    Acted project (Effect.all [Effect.single path change]) tree tree := by
  constructor
  · intro other
    rw [Effect.all_cons, Effect.all_nil, Effect.single]
    by_cases here : other = path
    · subst here
      simp [fixed]
    · simp [here]
  · intro _ _
    rfl

end Acted

/-! ## Styles of the paths -/

/-- The project files that the script copies, by their destination. -/
def copies (env : Environment) : List (Path × Option Source) :=
  stageFiles.map (fun name => (["etc", "runit", name],
    env.runit.bind fun config => config.file name)) ++
  [(["etc", "hostname"], env.runit.bind fun config => config.file "hostname"),
    (["etc", "iwd", "main.conf"], env.network "iwd-main.conf"),
    (["etc", "dhcpcd.conf"], env.network "dhcpcd.conf"),
    (["etc", "xbps.d", "00-repository-main.conf"], env.network "xbps-repos.conf"),
    (["sbin", "aqj-install"], env.installer),
    (["sbin", "aqj-install-gui"], env.guiInstaller),
    (["usr", "share", "applications", desktopName], env.desktopEntry),
    (["root", "Desktop", desktopName], env.desktopEntry),
    (["home", "aqj", "Desktop", desktopName], env.desktopEntry)]

/-- The style of the changes that meet at a path. -/
def style (env : Environment) (path : Path) : Change.Style String :=
  match role path with
  | .file =>
      if path = ["etc", "fstab"] then .made
      else
        match ((copies env).lookup path).join with
        | some source => .text source.content (· ||| env.executeBits)
        | none => .mode (· ||| env.executeBits)
  | .service =>
      match env.services.lookup (path.drop 2) with
      | some (.file content _) => .text content (· ||| env.executeBits)
      | some (.directory _) => .made
      | _ => .mode (· ||| env.executeBits)
  | .free => if path ∈ libraries then .edited sanitize else .made
  | _ => .made

theorem style_directory {env : Environment} {path : Path} (found : role path = .directory) :
    style env path = .made := by
  rw [style, found]

theorem style_free {env : Environment} {path : Path} (found : role path = .free)
    (other : path ∉ libraries) : style env path = .made := by
  rw [style, found]
  exact if_neg other

/-- The effect keeps every slot in order and removes nothing. -/
structure Neat (setting : Setting) (effect : Effect) : Prop where
  admits : ∀ path node, (slot setting path).Admits node →
    (slot setting path).Admits (effect path node)
  keeps : ∀ path, (effect path).Keeps

/-- A neat effect that, at each path, forgets what was there or is of the style of
the path. -/
structure Tidy (setting : Setting) (effect : Effect) : Prop extends Neat setting effect where
  settles : ∀ path, Change.Forgets (slot setting path).Admits (effect path) ∨
    (style setting.env path).Has (slot setting path).Admits (effect path)

section Single

variable {setting : Setting} {path : Path} {change : Change String}

theorem neat_single
    (admits : ∀ node, (slot setting path).Admits node → (slot setting path).Admits (change node))
    (keeps : change.Keeps) : Neat setting (Effect.single path change) := by
  constructor
  · intro other node possible
    unfold Effect.single
    by_cases same : other = path
    · subst same
      rw [if_pos rfl]
      exact admits node possible
    · rw [if_neg same]
      exact possible
  · intro other
    unfold Effect.single
    split
    · exact keeps
    · exact Change.keeps_id

theorem Neat.tidy_single (neat : Neat setting (Effect.single path change))
    (settles : Change.Forgets (slot setting path).Admits change ∨
      (style setting.env path).Has (slot setting path).Admits change) :
    Tidy setting (Effect.single path change) := by
  refine ⟨neat, ?_⟩
  intro other
  unfold Effect.single
  by_cases same : other = path
  · subst same
    rw [if_pos rfl]
    exact settles
  · rw [if_neg same]
    exact .inr (.inl fun _ _ => rfl)

end Single

/-! ## Readiness -/

/-- A fit tree in which something is at the known paths. -/
structure Ready (setting : Setting) (known : List Path) (tree : Host) : Prop where
  fit : Fit setting tree
  present : ∀ path ∈ known, tree.node (setting.project.rootfs path) ≠ none

section Ready

variable {setting : Setting} {known : List Path} {tree next : Host} {effect : Effect} {path : Path}

theorem Fit.acted (fit : Fit setting tree) (neat : Neat setting effect)
    (acted : Acted setting.project effect tree next) : Fit setting next := by
  constructor
  · unfold LinkTree.holdsDirectory
    rw [acted.elsewhere _ rootfs_ne_project]
    exact fit.reached
  · apply fit.outside.trans
    intro place beyond
    apply acted.elsewhere
    rintro path rfl
    exact beyond (project_prefix_rootfs path)
  · intro path
    rw [acted.inside]
    exact neat.admits path _ (fit.admits path)

theorem Ready.acted (ready : Ready setting known tree) (neat : Neat setting effect)
    (acted : Acted setting.project effect tree next) : Ready setting known next := by
  refine ⟨ready.fit.acted neat acted, ?_⟩
  intro path member
  rw [acted.inside]
  exact neat.keeps path _ (ready.present path member)

theorem Ready.mono {fewer : List Path} (ready : Ready setting known tree)
    (subset : fewer ⊆ known) : Ready setting fewer tree :=
  ⟨ready.fit, fun path member => ready.present path (subset member)⟩

theorem Ready.cons (ready : Ready setting known tree)
    (there : tree.node (setting.project.rootfs path) ≠ none) :
    Ready setting (path :: known) tree := by
  refine ⟨ready.fit, ?_⟩
  intro other member
  rcases List.mem_cons.mp member with rfl | old
  · exact there
  · exact ready.present other old

/-- What is known in the place of a directory is one. -/
theorem Ready.holdsDirectory (ready : Ready setting known tree) (member : path ∈ known)
    (directory : slot setting path = .directory) :
    tree.holdsDirectory (setting.project.rootfs path) = true := by
  rcases ready.fit.directory_cases directory with missing | held
  · exact absurd missing (ready.present path member)
  · exact held

end Ready

/-- A path with a name of its own in a directory that is known to be there. -/
structure Placed (setting : Setting) (known : List Path) (path : Path) : Prop where
  proper : path ≠ []
  plain : ∀ name ∈ path, LinkTree.Plain name
  parent : path.dropLast ∈ known
  holder : slot setting path.dropLast = .directory

theorem Placed.above {setting : Setting} {known : List Path} {path : Path} {tree : Host}
    (placed : Placed setting known path) (ready : Ready setting known tree) :
    tree.holdsDirectory (setting.project.rootfs path).dropLast = true := by
  rw [rootfs_dropLast placed.proper]
  exact ready.holdsDirectory placed.parent placed.holder

/-! ## Commands -/

/-- A command with exactly these effects, on every tree that is ready for it; if
`sure`, it succeeds. -/
def Does (setting : Setting) (before : List Path) (command : Command Host) (sure : Bool)
    (effects : List Effect) (after : List Path) : Prop :=
  ∀ tree, Ready setting before tree → (command tree).1 ≠ .interrupted ∧
    (sure = true → (command tree).1 = .success) ∧
    Acted setting.project (Effect.all effects) tree (command tree).2 ∧
    Ready setting after (command tree).2

section Commands

variable {setting : Setting} {before middle after : List Path} {command : Command Host}
  {sure : Bool} {effects early late : List Effect}

theorem Does.mono {more fewer : List Path} (does : Does setting before command sure effects after)
    (known : before ⊆ more) (asked : fewer ⊆ after) :
    Does setting more command sure effects fewer := by
  intro tree ready
  obtain ⟨goesOn, success, acted, next⟩ := does tree (ready.mono known)
  exact ⟨goesOn, success, acted, next.mono asked⟩

theorem does_of_success (ends : ∀ tree, Ready setting before tree → ∃ next,
      command tree = (.success, next) ∧ Acted setting.project (Effect.all effects) tree next ∧
      Ready setting after next) :
    Does setting before command sure effects after := by
  intro tree ready
  obtain ⟨next, ended, acted, readyNext⟩ := ends tree ready
  rw [ended]
  exact ⟨by simp, fun _ => rfl, acted, readyNext⟩

/-- A command that is defined on every tree that is ready for it. -/
theorem does_ofOption {action : Host → Option Host}
    (defined : ∀ tree, Ready setting before tree → ∃ next, action tree = some next ∧
      Acted setting.project (Effect.all effects) tree next ∧ Ready setting after next) :
    Does setting before (.ofOption action) sure effects after := by
  apply does_of_success
  intro tree ready
  obtain ⟨next, result, rest⟩ := defined tree ready
  refine ⟨next, ?_, rest⟩
  simp only [Command.ofOption, result]

/-- A command with one neat effect. -/
theorem does_neat {action : Host → Option Host} {effect : Effect} (neat : Neat setting effect)
    (defined : ∀ tree, Ready setting before tree →
      ∃ next, action tree = some next ∧ Acted setting.project (Effect.all [effect]) tree next) :
    Does setting before (.ofOption action) sure [effect] before := by
  apply does_ofOption
  intro tree ready
  obtain ⟨next, result, acted⟩ := defined tree ready
  exact ⟨next, result, acted, ready.acted neat acted⟩

theorem does_each_nil : Does setting before (.each []) sure [] before :=
  does_of_success fun tree ready => ⟨tree, rfl, .refl, ready⟩

theorem does_each_cons {commands : List (Command Host)}
    (first : Does setting before command sure early middle)
    (rest : Does setting middle (.each commands) sure late after) :
    Does setting before (.each (command :: commands)) sure (early ++ late) after := by
  intro tree ready
  obtain ⟨goesOn, success, acted, next⟩ := first tree ready
  obtain ⟨goesOnRest, successRest, actedRest, last⟩ := rest _ next
  refine ⟨?_, ?_, acted.trans actedRest, last⟩
  · simp only [Command.each]
    split
    · exact goesOnRest
    · exact goesOn
  · intro certain
    simp only [Command.each, success certain, if_true]
    exact successRest certain

theorem does_each_append {commands others : List (Command Host)}
    (first : Does setting before (.each commands) sure early middle)
    (rest : Does setting middle (.each others) sure late after) :
    Does setting before (.each (commands ++ others)) sure (early ++ late) after := by
  intro tree ready
  obtain ⟨goesOn, success, acted, next⟩ := first tree ready
  obtain ⟨goesOnRest, successRest, actedRest, last⟩ := rest _ next
  rw [Command.each_append]
  refine ⟨?_, ?_, acted.trans actedRest, last⟩
  · simp only
    split
    · exact goesOnRest
    · exact goesOn
  · intro certain
    simp only [success certain, if_true]
    exact successRest certain

end Commands

/-! ## Scripts -/

/-- From every tree that is ready for it the script ends as given and has exactly
these effects. -/
def Acts (setting : Setting) (before : List Path) (script : Script Host) (effects : List Effect)
    (goesOn : Bool) (after : List Path) : Prop :=
  ∀ tree, Ready setting before tree → (exec script tree).running = goesOn ∧
    Acted setting.project (Effect.all effects) tree (exec script tree).state ∧
    (goesOn = true → Ready setting after (exec script tree).state)

section Scripts

variable {setting : Setting} {before middle after : List Path} {first second script : Script Host}
  {command : Command Host} {sure goesOn : Bool} {effects early late : List Effect}

theorem Acts.mono {more fewer : List Path} (acts : Acts setting before script effects goesOn after)
    (known : before ⊆ more) (asked : fewer ⊆ after) :
    Acts setting more script effects goesOn fewer := by
  intro tree ready
  obtain ⟨running, acted, next⟩ := acts tree (ready.mono known)
  exact ⟨running, acted, fun goes => (next goes).mono asked⟩

theorem acts_skip : Acts setting before .skip [] true before :=
  fun _ ready => ⟨rfl, .refl, fun _ => ready⟩

theorem acts_run (does : Does setting before command true effects after) :
    Acts setting before (.run command) effects true after := by
  intro tree ready
  obtain ⟨_, success, acted, next⟩ := does tree ready
  rcases ended : command tree with ⟨status, last⟩
  rw [ended] at success acted next
  obtain rfl : status = .success := success rfl
  simp only [exec, ended]
  exact ⟨rfl, acted, fun _ => next⟩

theorem acts_tolerate (does : Does setting before command sure effects after) :
    Acts setting before (.tolerate command) effects true after := by
  intro tree ready
  obtain ⟨goesOn, _, acted, next⟩ := does tree ready
  rcases ended : command tree with ⟨status, last⟩
  rw [ended] at goesOn acted next
  cases status with
  | success =>
      simp only [exec, ended]
      exact ⟨rfl, acted, fun _ => next⟩
  | failure =>
      simp only [exec, ended]
      exact ⟨rfl, acted, fun _ => next⟩
  | interrupted => contradiction

theorem acts_seq (firstActs : Acts setting before first early true middle)
    (secondActs : Acts setting middle second late goesOn after) :
    Acts setting before (.seq first second) (early ++ late) goesOn after := by
  intro tree ready
  obtain ⟨running, acted, next⟩ := firstActs tree ready
  rw [exec_seq_of_continues (Outcome.eq_continues_of_running running)]
  obtain ⟨ended, actedLate, last⟩ := secondActs _ (next rfl)
  exact ⟨ended, acted.trans actedLate, last⟩

theorem acts_seq_stopped (firstActs : Acts setting before first early false middle) :
    Acts setting before (.seq first second) early false after := by
  intro tree ready
  obtain ⟨stopped, acted, _⟩ := firstActs tree ready
  rw [exec_seq_of_stopped stopped]
  exact ⟨stopped, acted, fun impossible => absurd impossible (by simp)⟩

/-- Effects that do the same to every node that can be there are interchangeable. -/
theorem Acts.congr {others : List Effect} (acts : Acts setting before script effects goesOn after)
    (same : ∀ path node, (slot setting path).Admits node →
      Effect.all effects path node = Effect.all others path node) :
    Acts setting before script others goesOn after := by
  intro tree ready
  obtain ⟨running, acted, next⟩ := acts tree ready
  refine ⟨running, ⟨?_, acted.elsewhere⟩, next⟩
  intro path
  rw [acted.inside, same path _ (ready.fit.admits path)]

end Scripts

/-- The script has tidy effects only, and none on the paths of the region. -/
def Settles (setting : Setting) (region : Path → Prop) (before : List Path) (script : Script Host)
    (goesOn : Bool) (after : List Path) : Prop :=
  ∃ effects, (∀ effect ∈ effects, Tidy setting effect ∧ ∀ path, region path → effect path = id) ∧
    Acts setting before script effects goesOn after

section Settles

variable {setting : Setting} {region : Path → Prop} {before middle after : List Path}
  {first second : Script Host} {goesOn firstGoesOn : Bool}

theorem Settles.mono {script : Script Host} {more fewer : List Path}
    (settles : Settles setting region before script goesOn after) (known : before ⊆ more)
    (asked : fewer ⊆ after) : Settles setting region more script goesOn fewer := by
  obtain ⟨effects, tidy, acts⟩ := settles
  exact ⟨effects, tidy, acts.mono known asked⟩

theorem settles_skip : Settles setting region before .skip true before :=
  ⟨[], by simp, acts_skip⟩

theorem settles_seq (firstSettles : Settles setting region before first firstGoesOn middle)
    (secondSettles : Settles setting region middle second goesOn after) :
    Settles setting region before (.seq first second) (firstGoesOn && goesOn) after := by
  obtain ⟨early, tidyEarly, firstActs⟩ := firstSettles
  obtain ⟨late, tidyLate, secondActs⟩ := secondSettles
  cases firstGoesOn with
  | false => exact ⟨early, tidyEarly, acts_seq_stopped firstActs⟩
  | true =>
      refine ⟨early ++ late, ?_, acts_seq firstActs secondActs⟩
      intro effect member
      rcases List.mem_append.mp member with inEarly | inLate
      · exact tidyEarly effect inEarly
      · exact tidyLate effect inLate

theorem settles_then (firstSettles : Settles setting region before first true middle)
    (secondSettles : Settles setting region middle second goesOn after) :
    Settles setting region before (.seq first second) goesOn after :=
  settles_seq firstSettles secondSettles

theorem exists_settles_seq
    (firstSettles : Settles setting region before first firstGoesOn middle)
    (secondSettles : ∃ goesOn, Settles setting region middle second goesOn after) :
    ∃ goesOn, Settles setting region before (.seq first second) goesOn after := by
  obtain ⟨goesOn, secondSettles⟩ := secondSettles
  exact ⟨_, settles_seq firstSettles secondSettles⟩

/-- Two commands that have to be seen together. -/
theorem settles_pair {third : Script Host}
    (pair : Settles setting region before (.seq first second) true middle)
    (rest : Settles setting region middle third goesOn after) :
    Settles setting region before (.seq first (.seq second third)) goesOn after := by
  obtain ⟨effects, tidy, acts⟩ := settles_then pair rest
  refine ⟨effects, tidy, ?_⟩
  intro tree ready
  rw [← exec_seq_assoc]
  exact acts tree ready

/-- A test whose outcome is known. -/
theorem settles_when {test : Host → Bool} {decided : Bool} {body : Script Host}
    (decides : ∀ tree, Ready setting before tree → test tree = decided)
    (settles : decided = true → Settles setting region before body goesOn before) :
    Settles setting region before (.when test body) (!decided || goesOn) before := by
  cases decided with
  | true =>
      obtain ⟨effects, tidy, acts⟩ := settles rfl
      refine ⟨effects, tidy, ?_⟩
      intro tree ready
      rw [exec_when, decides tree ready]
      exact acts tree ready
  | false =>
      refine ⟨[], by simp, ?_⟩
      intro tree ready
      rw [exec_when, decides tree ready]
      exact ⟨rfl, .refl, fun _ => ready⟩

theorem settles_when_sure {test : Host → Bool} {decided : Bool} {body : Script Host}
    (decides : ∀ tree, Ready setting before tree → test tree = decided)
    (settles : decided = true → Settles setting region before body true before) :
    Settles setting region before (.when test body) true before := by
  have whole := settles_when decides settles
  rwa [Bool.or_true] at whole

end Settles

end AqjOs.Rootfs
