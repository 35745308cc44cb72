import AqjOs.Build.Sources
import AqjOs.Files.Archive
import Mathlib.Data.List.TakeWhile

/-!
# Where the tarball builders look for their sources

Six scripts take the source directory from the text of the first member that
`tar -tf` lists.  The text decides what `--clean` removes, whether the tarball is
unpacked at all and where the package is configured.  Here the machine is a tree,
and the actions of a run are recorded with the directories that they really
reach.  The text of a member is kept apart from its name: `tar -tf` quotes
backslashes, control characters and, in some locales, what is not ASCII.  The
staging root, which nothing here reads, is left out.
-/

namespace AqjOs.Build.Extraction

open AqjOs.Files AqjOs.Shell AqjOs.Build.Sources

/-- A member of a tarball, with its name and the text that stands for it in the
listing. -/
structure Member where
  name : String
  listed : String
  node : Node String

/-- The names on the way to a member, as `tar` reads them. -/
def components (name : String) : Path :=
  ((name.toList.splitOn '/').map String.ofList).filter fun part => part ≠ "" ∧ part ≠ "."

/-- The members of a tarball in the order of the listing. -/
abbrev Archive := List Member

/-- What a run meets: its argument, the host, whether a removal, an extraction and
the configuration succeed, and how far the first two get if they do not. -/
structure Circumstances where
  clean : Bool
  linux : Bool
  removes : Bool
  kept : Path → Bool
  unpacks : Bool
  written : Nat
  configures : Bool
  directoryMode : Nat

/-- The actions of a run that depend on the guessed directory. -/
inductive Action
  | extract
  | configure (place : Option Path)
  deriving DecidableEq, Repr

/-- The machine, the variable and the actions so far. -/
structure State where
  tree : LinkTree String
  extracted : String
  actions : List Action

/-- A run begins on a tree. -/
def State.start (tree : LinkTree String) : State where
  tree := tree
  extracted := ""
  actions := []

section Script

variable (project : Path) (builder : Builder) (archive : Archive) (env : Circumstances)

/-- `PACKAGES_BUILD_DIR`. -/
def buildDir : Path :=
  project ++ ["packages", "build"]

/-- `SRC_DIR`. -/
def srcDir (state : State) : Path :=
  buildDir project ++ [state.extracted]

/-- A command on the tree as a command of the script. -/
def onTree (command : Command (LinkTree String)) : Command State :=
  fun state => ((command state.tree).1, { state with tree := (command state.tree).2 })

/-- `mkdir -p "${PACKAGES_BUILD_DIR}"`. -/
def makeBuildDir : Command State :=
  onTree (LinkTree.mkdirs env.directoryMode [buildDir project])

/-- The assignment of `EXTRACTED_DIR`; the status of a pipe is that of `cut`. -/
def listTarball : Command State :=
  fun state => (.success,
    { state with extracted := extractedDir builder (archive.map Member.listed) })

/-- `rm -rf "${SRC_DIR}"`. -/
def removeSource : Command State :=
  fun state => onTree (LinkTree.removeAll env.removes env.kept (srcDir project state)) state

/-- `tar -xzf "${TARBALL_PATH}" -C "${PACKAGES_BUILD_DIR}"`. -/
def untar : Command State :=
  fun state =>
    let members := archive.map fun member => (components member.name, member.node)
    let unpacked := LinkTree.unpack env.directoryMode
      (if env.unpacks then members else members.take env.written) (buildDir project) state.tree
    (Status.ofBool env.unpacks,
      { state with tree := unpacked.2, actions := state.actions ++ [.extract] })

/-- The first command that works in `SRC_DIR`. -/
def configure : Command State :=
  fun state => (Status.ofBool env.configures, { state with
    actions := state.actions ++
      [.configure ((state.tree.resolve (srcDir project state)).filter
        state.tree.holdsDirectory)] })

/-- The scripts from the verification of the tarball to the configuration. -/
def buildTarball : Script State :=
  .block [
    .run (makeBuildDir project env),
    .run (listTarball builder archive),
    .when (fun _ => env.clean) (.run (removeSource project env)),
    .when (fun state => !state.tree.isDirectory (srcDir project state))
      (.run (untar project archive env)),
    .when (fun _ => !env.linux) (.exit 0),
    .run (configure project env)]

/-- The actions of a run. -/
def actions (tree : LinkTree String) : List Action :=
  ((buildTarball project builder archive env).exec (.start tree)).state.actions

end Script

/-! ## The guess -/

theorem firstField_cons {directory rest : String} (single : '/' ∉ directory.toList) :
    firstField (directory ++ "/" ++ rest) = directory := by
  have inside : ∀ character ∈ directory.toList, decide (character ≠ '/') = true := by
    intro character member
    exact decide_eq_true fun same => single (same ▸ member)
  rw [firstField, String.toList_append, String.toList_append, List.append_assoc,
    List.takeWhile_append_of_pos inside]
  simp

theorem firstField_noSlash (line : String) : '/' ∉ (firstField line).toList := by
  rw [firstField, String.toList_ofList]
  intro member
  have differs := List.mem_takeWhile_imp member
  simp at differs

theorem components_cons {directory rest : String} (single : '/' ∉ directory.toList)
    (plain : LinkTree.Plain directory) :
    components (directory ++ "/" ++ rest) = directory :: components rest := by
  have text : (directory ++ "/" ++ rest).toList = directory.toList ++ '/' :: rest.toList := by
    simp
  rw [components, text, List.splitOn_append_cons_self_of_not_mem single, List.map_cons,
    String.ofList_toList, List.filter_cons_of_pos]
  · rfl
  · simp [plain.1, plain.2.1]

theorem components_dot (rest : String) : components ("./" ++ rest) = components rest := by
  have text : ("./" ++ rest).toList = ['.'] ++ '/' :: rest.toList := by
    simp
  rw [components, text, List.splitOn_append_cons_self_of_not_mem (by decide), List.map_cons,
    List.filter_cons_of_neg (by decide)]
  rfl

/-- The guess is a name, never a longer path. -/
theorem extractedDir_noSlash {builder : Builder} (isTarball : builder ∈ tarballBuilders)
    (listing : List String) : '/' ∉ (extractedDir builder listing).toList := by
  have fallbacks : ∀ builder ∈ tarballBuilders, '/' ∉ builder.fallback.toList := by
    decide
  rw [extractedDir]
  split
  · exact fallbacks builder isTarball
  · cases listing with
    | nil => exact List.not_mem_nil
    | cons line lines => exact firstField_noSlash line

theorem extractedDir_ne_empty {builder : Builder} (isTarball : builder ∈ tarballBuilders)
    (listing : List String) : extractedDir builder listing ≠ "" := by
  have fallbacks : ∀ builder ∈ tarballBuilders, builder.fallback ≠ "" := by
    decide
  rw [extractedDir]
  split
  · exact fallbacks builder isTarball
  · assumption

/-! ## Tarballs with one directory -/

/-- Every member lies in one top-level directory, under either spelling. -/
structure SingleTop (archive : Archive) (directory : String) : Prop where
  single : '/' ∉ directory.toList
  plain : LinkTree.Plain directory
  nonempty : archive ≠ []
  members : ∀ member ∈ archive, ∃ rest,
    (member.name = directory ++ "/" ++ rest ∨ member.name = "./" ++ (directory ++ "/" ++ rest)) ∧
      ".." ∉ components rest ∧ (components rest = [] → member.node.isDirectory = true)

/-- What stands before the first slash of the listing is the directory. -/
def ListedAs (builder : Builder) (archive : Archive) (directory : String) : Prop :=
  extractedDir builder (archive.map Member.listed) = directory

/-- A first member that is listed under its directory, without a dot in front and
unquoted, names the directory. -/
theorem listedAs_of_first {builder : Builder} {first : Member} {others : Archive}
    {directory : String} (rest : String) (single : '/' ∉ directory.toList)
    (named : directory ≠ "") (listed : first.listed = directory ++ "/" ++ rest) :
    ListedAs builder (first :: others) directory := by
  rw [ListedAs, extractedDir, List.map_cons, List.head?_cons, Option.map_some, Option.getD_some,
    listed, firstField_cons single, if_neg named]

/-- `packages/build` is there or still missing, and does not contain the directory. -/
structure Fresh (project : Path) (tree : LinkTree String) (directory : String) : Prop where
  plain : ∀ name ∈ project, LinkTree.Plain name
  packages : tree.holdsDirectory (project ++ ["packages"]) = true
  build : tree.holdsDirectory (buildDir project) = true ∨ tree.node (buildDir project) = none
  missing : tree.node (buildDir project ++ [directory]) = none

/-- `packages/build` is there and does not contain the directory. -/
structure Cleared (project : Path) (tree : LinkTree String) (directory : String) : Prop where
  plain : ∀ name ∈ project, LinkTree.Plain name
  build : tree.holdsDirectory (buildDir project) = true
  missing : tree.node (buildDir project ++ [directory]) = none

/-- The commands that the guess depends on succeed, on a Linux host. -/
def Circumstances.smooth (env : Circumstances) : Bool :=
  env.linux && env.removes && env.unpacks

/-- The actions of a run that works in the directory of the tarball. -/
def rightActions (project : Path) (directory : String) : List Action :=
  [.extract, .configure (some (buildDir project ++ [directory]))]

/-- No run does anything else than to unpack the tarball and to configure in its
directory, and a run does both unless a command before it fails. -/
def WorksInside (project : Path) (builder : Builder) (archive : Archive) (directory : String)
    (tree : LinkTree String) : Prop :=
  ∀ env : Circumstances,
    actions project builder archive env tree <+: rightActions project directory ∧
    (env.smooth = true → actions project builder archive env tree = rightActions project directory)

section Runs

variable {project : Path} {builder : Builder} {archive : Archive} {directory : String}
  {tree : LinkTree String}

theorem plain_buildDir (plain : ∀ name ∈ project, LinkTree.Plain name) :
    ∀ name ∈ buildDir project, LinkTree.Plain name := by
  have fixed : ∀ name ∈ ["packages", "build"], LinkTree.Plain name := by
    decide
  intro name member
  rcases List.mem_append.mp member with inProject | below
  · exact plain name inProject
  · exact fixed name below

theorem Cleared.plainBuild (cleared : Cleared project tree directory) :
    ∀ name ∈ buildDir project, LinkTree.Plain name :=
  plain_buildDir cleared.plain

theorem plain_concat {path : Path} {name : String}
    (plainPath : ∀ other ∈ path, LinkTree.Plain other) (plain : LinkTree.Plain name) : ∀ other ∈ path ++ [name], LinkTree.Plain other := by
  intro other member
  rcases List.mem_append.mp member with above | last
  · exact plainPath other above
  · rw [List.mem_singleton.mp last]
    exact plain

/-- A name that is missing in a directory leads to itself, and so to no directory. -/
theorem unresolved_of_missing {path : Path} {name : String}
    (plainPath : ∀ other ∈ path, LinkTree.Plain other) (plain : LinkTree.Plain name)
    (held : tree.holdsDirectory path = true) (missing : tree.node (path ++ [name]) = none) :
    (tree.resolve (path ++ [name])).filter tree.holdsDirectory = none := by
  have unlinked : tree.holdsLink (path ++ [name]) = false := by
    rw [LinkTree.holdsLink, missing]
    rfl
  rw [LinkTree.resolve_of_parent (plain_concat plainPath plain) held unlinked]
  simp [LinkTree.holdsDirectory, missing]

theorem isDirectory_of_missing {path : Path} {name : String}
    (plainPath : ∀ other ∈ path, LinkTree.Plain other) (plain : LinkTree.Plain name)
    (held : tree.holdsDirectory path = true) (missing : tree.node (path ++ [name]) = none) :
    tree.isDirectory (path ++ [name]) = false := by
  have nowhere := unresolved_of_missing plainPath plain held missing
  rw [LinkTree.isDirectory, Bool.eq_false_iff]
  intro leads
  obtain ⟨place, resolved, directory⟩ := (Option.any_eq_true _ _).mp leads
  rw [resolved] at nowhere
  simp [directory] at nowhere

/-- After `mkdir -p` the build directory is there. -/
theorem Fresh.makeBuildDir (fresh : Fresh project tree directory) (env : Circumstances) :
    ∃ made, Extraction.makeBuildDir project env (.start tree) =
      (Status.ofBool true, .start made) ∧ Cleared project made directory := by
  have plainBuild := plain_buildDir fresh.plain
  have below : buildDir project = project ++ ["packages"] ++ ["build"] := by
    simp [buildDir]
  rcases fresh.build with there | absent
  · refine ⟨tree, ?_, fresh.plain, there, fresh.missing⟩
    have same := LinkTree.mkdirs_of_holdsDirectory env.directoryMode plainBuild there
    simp only [Extraction.makeBuildDir, onTree, State.start, same]
    rfl
  · rw [below] at plainBuild absent
    obtain ⟨made, placed, run⟩ :=
      LinkTree.mkdirs_of_missing env.directoryMode plainBuild fresh.packages absent
    refine ⟨made, ?_, fresh.plain, ?_, ?_⟩
    · simp only [Extraction.makeBuildDir, onTree, State.start, below, run]
      rfl
    · rw [below, LinkTree.holdsDirectory, LinkTree.node_set placed, if_pos rfl]
      rfl
    · rw [LinkTree.node_set placed, if_neg, fresh.missing]
      rw [below]
      simp

/-- The runs of a script that has guessed a name. -/
theorem Fresh.exec (fresh : Fresh project tree directory) (builder : Builder)
    (archive : Archive) (env : Circumstances) :
    ∃ made, Cleared project made directory ∧
      (buildTarball project builder archive env).exec (.start tree) =
        (Script.block [
          .when (fun _ => env.clean) (.run (removeSource project env)),
          .when (fun state => !state.tree.isDirectory (srcDir project state))
            (.run (untar project archive env)),
          .when (fun _ => !env.linux) (.exit 0),
          .run (configure project env)]).exec
            ⟨made, extractedDir builder (archive.map Member.listed), []⟩ := by
  obtain ⟨made, run, cleared⟩ := fresh.makeBuildDir env
  have listed : listTarball builder archive (.start made) = (Status.ofBool true,
      ⟨made, extractedDir builder (archive.map Member.listed), []⟩) := rfl
  refine ⟨made, cleared, ?_⟩
  rw [buildTarball, Script.block_cons,
    Script.exec_seq_of_continues (Script.exec_run_ofBool run), Script.block_cons,
    Script.exec_seq_of_continues (Script.exec_run_ofBool listed)]

/-- The members as `tar` sees them all lie below the directory. -/
theorem SingleTop.components_eq (top : SingleTop archive directory) {member : Member}
    (inArchive : member ∈ archive) :
    ∃ rest, components member.name = directory :: components rest ∧
      (components rest = [] → member.node.isDirectory = true) := by
  obtain ⟨rest, name, -, isTop⟩ := top.members member inArchive
  refine ⟨rest, ?_, isTop⟩
  rcases name with plain | dotted
  · rw [plain, components_cons top.single top.plain]
  · rw [dotted, components_dot, components_cons top.single top.plain]

/-- The members as `tar` sees them, from the first one on. -/
theorem SingleTop.members_eq (top : SingleTop archive directory) :
    ∃ rest node others, (rest = [] → node.isDirectory = true) ∧
      (archive.map fun member => (components member.name, member.node)) =
        (directory :: rest, node) :: others := by
  cases archive with
  | nil => exact absurd rfl top.nonempty
  | cons first archive =>
      obtain ⟨rest, path, isTop⟩ := top.components_eq List.mem_cons_self
      refine ⟨components rest, first.node,
        archive.map fun member => (components member.name, member.node), isTop, ?_⟩
      rw [List.map_cons, path]

/-- After the extraction the directory is there. -/
theorem Cleared.holdsDirectory_untar (cleared : Cleared project tree directory)
    (top : SingleTop archive directory) {env : Circumstances} (unpacks : env.unpacks = true)
    (extracted : String) (done : List Action) :
    (untar project archive env ⟨tree, extracted, done⟩).2.tree.holdsDirectory
      (buildDir project ++ [directory]) = true := by
  obtain ⟨rest, node, others, isTop, members⟩ := top.members_eq
  have base : (tree.resolve (buildDir project)).filter tree.holdsDirectory =
      some (buildDir project) := by
    rw [LinkTree.resolve_of_holdsDirectory cleared.plainBuild cleared.build]
    simp [cleared.build]
  simp only [untar, LinkTree.unpack, base, unpacks, if_true, members]
  exact LinkTree.holdsDirectory_unpack cleared.build cleared.missing isTop

/-! ### A listing that names the directory -/

/-- There is nothing to remove yet. -/
theorem Cleared.removeSource (cleared : Cleared project tree directory)
    (plain : LinkTree.Plain directory) (env : Circumstances) :
    Extraction.removeSource project env ⟨tree, directory, []⟩ =
      (Status.ofBool env.removes, ⟨tree, directory, []⟩) := by
  have notDots : ¬ ((buildDir project ++ [directory]).getLast? = some "." ∨
      (buildDir project ++ [directory]).getLast? = some "..") := by
    simp [plain.2.1, plain.2.2]
  have removed : LinkTree.removeAll env.removes env.kept (buildDir project ++ [directory]) tree =
      (Status.ofBool env.removes, tree) := by
    rw [LinkTree.removeAll, if_neg notDots,
      LinkTree.locate_of_parent cleared.plainBuild cleared.build]
    simp only [LinkTree.remove_of_missing _ cleared.missing]
  simp only [Extraction.removeSource, onTree, srcDir, removed]

theorem Cleared.not_isDirectory (cleared : Cleared project tree directory)
    (plain : LinkTree.Plain directory) :
    tree.isDirectory (buildDir project ++ [directory]) = false :=
  isDirectory_of_missing cleared.plainBuild plain cleared.build cleared.missing

theorem Cleared.configure (cleared : Cleared project tree directory)
    (plain : LinkTree.Plain directory) (env : Circumstances) {later : LinkTree String}
    (held : later.holdsDirectory (buildDir project ++ [directory]) = true) :
    Extraction.configure project env ⟨later, directory, [.extract]⟩ =
      (Status.ofBool env.configures, ⟨later, directory, rightActions project directory⟩) := by
  have place : (later.resolve (buildDir project ++ [directory])).filter later.holdsDirectory =
      some (buildDir project ++ [directory]) := by
    rw [LinkTree.resolve_of_holdsDirectory (plain_concat cleared.plainBuild plain) held]
    simp [held]
  simp only [Extraction.configure, srcDir, place]
  rfl

/-- What remains of the script when the guessed directory is missing. -/
theorem Cleared.actions_unpack (cleared : Cleared project tree directory)
    (top : SingleTop archive directory) (env : Circumstances) :
    ((Script.block [
      .when (fun state => !state.tree.isDirectory (srcDir project state))
        (.run (untar project archive env)),
      .when (fun _ => !env.linux) (.exit 0),
      .run (Extraction.configure project env)]).exec ⟨tree, directory, []⟩).state.actions =
      if env.unpacks && env.linux then rightActions project directory else [.extract] := by
  have missing : (!tree.isDirectory (srcDir project ⟨tree, directory, []⟩)) = true := by
    rw [srcDir, cleared.not_isDirectory top.plain]
    rfl
  have unpacked : untar project archive env ⟨tree, directory, []⟩ = (Status.ofBool env.unpacks,
      (untar project archive env ⟨tree, directory, []⟩).2) := rfl
  rw [Script.block_cons, Script.exec_seq, Script.exec_when, if_pos missing,
    Script.exec_run_ofBool unpacked]
  cases unpacks : env.unpacks with
  | false => rfl
  | true =>
      have held := cleared.holdsDirectory_untar top unpacks directory []
      have configured : Extraction.configure project env
          (untar project archive env ⟨tree, directory, []⟩).2 = (Status.ofBool env.configures,
            ⟨_, directory, rightActions project directory⟩) :=
        cleared.configure top.plain env held
      rw [if_pos rfl, Outcome.bind_continues, Script.block_cons, Script.exec_seq,
        Script.exec_when]
      cases env.linux with
      | false => rfl
      | true =>
          rw [if_neg (by decide), Outcome.bind_continues, Script.block_cons, Script.exec_seq,
            Script.exec_run_ofBool configured]
          cases env.configures <;> rfl

/-- The actions of the runs that guess the directory of the tarball. -/
theorem Fresh.actions_of_listedAs (fresh : Fresh project tree directory)
    (top : SingleTop archive directory) (listed : ListedAs builder archive directory)
    (env : Circumstances) :
    actions project builder archive env tree =
      if env.clean && !env.removes then []
      else if env.unpacks && env.linux then rightActions project directory
      else [.extract] := by
  obtain ⟨made, cleared, run⟩ := fresh.exec builder archive env
  have removed := cleared.removeSource top.plain env
  rw [actions, run, show extractedDir builder (archive.map Member.listed) = directory from listed,
    ← cleared.actions_unpack top env, Script.block_cons, Script.exec_seq, Script.exec_when,
    Script.exec_run_ofBool removed]
  cases env.clean with
  | false => rfl
  | true => cases env.removes <;> rfl

/-! ### A listing that names something else -/

/-- A run that finds the guessed directory does not unpack. -/
theorem Cleared.exec_present (archive : Archive) (env : Circumstances) (made : LinkTree String)
    {guess : String}
    (present : made.isDirectory (buildDir project ++ [guess]) = true)
    (dirty : env.clean = false) (linux : env.linux = true) :
    ∃ place, ((Script.block [
      .when (fun _ => env.clean) (.run (Extraction.removeSource project env)),
      .when (fun state => !state.tree.isDirectory (srcDir project state))
        (.run (untar project archive env)),
      .when (fun _ => !env.linux) (.exit 0),
      .run (Extraction.configure project env)]).exec ⟨made, guess, []⟩).state.actions =
        [.configure place] := by
  have configured : Extraction.configure project env ⟨made, guess, []⟩ =
      (Status.ofBool env.configures, ⟨made, guess, [.configure
        ((made.resolve (buildDir project ++ [guess])).filter made.holdsDirectory)]⟩) := rfl
  refine ⟨(made.resolve (buildDir project ++ [guess])).filter made.holdsDirectory, ?_⟩
  simp only [Script.block, Script.exec_seq, Script.exec_when, dirty, linux, srcDir, present,
    Script.exec_run_ofBool configured, Bool.not_true, Bool.false_eq_true, if_false,
    Outcome.bind_continues]
  cases env.configures <;> rfl

/-- `packages/build/.` and `packages/build/..` are always there. -/
theorem Cleared.dots_present (cleared : Cleared project tree directory) {guess : String}
    (dots : guess = "." ∨ guess = "..") :
    tree.isDirectory (buildDir project ++ [guess]) = true := by
  have resolved : tree.resolve (buildDir project ++ [guess]) = _ :=
    LinkTree.resolve_concat cleared.plainBuild cleared.build
  rcases dots with rfl | rfl
  · have here : tree.resolve (buildDir project ++ ["."]) = some (buildDir project) := by
      rw [resolved]
      rfl
    rw [LinkTree.isDirectory, here, Option.any_some, cleared.build]
  · have up : tree.resolve (buildDir project ++ [".."]) = some (project ++ ["packages"]) := by
      rw [resolved, LinkTree.walkWith_up (by simp [buildDir])]
      simp [buildDir, LinkTree.walkWith_nil]
    have held : tree.holdsDirectory (project ++ ["packages"] ++ ["build"]) = true := by
      simpa [buildDir] using cleared.build
    rw [LinkTree.isDirectory, up, Option.any_some,
      LinkTree.holdsDirectory_of_append held]

/-- What an extraction leaves of the build directory: it is there, and a name
that is not the tarball's stays missing. -/
theorem Cleared.unpack_apart (cleared : Cleared project tree directory)
    (top : SingleTop archive directory) {guess : String} (apart : guess ≠ directory)
    (absent : tree.node (buildDir project ++ [guess]) = none) (mode : Nat) :
    let unpacked := (LinkTree.unpack mode
      (archive.map fun member => (components member.name, member.node)) (buildDir project) tree).2
    unpacked.holdsDirectory (buildDir project) = true ∧
      unpacked.node (buildDir project ++ [guess]) = none := by
  have base : (tree.resolve (buildDir project)).filter tree.holdsDirectory =
      some (buildDir project) := by
    rw [LinkTree.resolve_of_holdsDirectory cleared.plainBuild cleared.build]
    simp [cleared.build]
  simp only [LinkTree.unpack, base]
  apply Command.each_snd (fun other : LinkTree String =>
    other.holdsDirectory (buildDir project) = true ∧
      other.node (buildDir project ++ [guess]) = none) _ ⟨cleared.build, absent⟩
  rintro step isStep other ⟨held, missing⟩
  obtain ⟨pair, inPairs, isStep⟩ := List.mem_flatMap.mp isStep
  obtain ⟨member, inArchive, rfl⟩ := List.mem_map.mp inPairs
  refine ⟨LinkTree.holdsDirectory_memberSteps isStep held, ?_⟩
  obtain ⟨rest, path, -⟩ := top.components_eq inArchive
  rw [path] at isStep
  rw [LinkTree.node_memberSteps isStep _ other, missing]
  intro inside
  have same := List.append_cancel_left (inside.eq_of_length (by simp))
  exact apart (List.cons.inj same).1.symm

/-- A removal beside the directory leaves the build directory as it has to be. -/
theorem Cleared.remove (cleared : Cleared project tree directory) (guess : String) :
    Cleared project (tree.remove (buildDir project ++ [guess]) fun _ => false) directory where
  plain := cleared.plain
  build := by
    rw [LinkTree.holdsDirectory, LinkTree.node_remove_outside]
    · exact cleared.build
    · intro inside
      have longer := inside.length_le
      rw [List.length_append, List.length_singleton] at longer
      omega
  missing := LinkTree.node_remove_of_missing cleared.missing

/-- A run that removes the guessed directory first unpacks the tarball beside it
and finds nothing to configure. -/
theorem Cleared.exec_missing (cleared : Cleared project tree directory)
    (top : SingleTop archive directory) {guess : String} (plain : LinkTree.Plain guess)
    (apart : guess ≠ directory) (env : Circumstances) (clean : env.clean = true)
    (smooth : env.smooth = true) :
    ((Script.block [
      .when (fun _ => env.clean) (.run (Extraction.removeSource project env)),
      .when (fun state => !state.tree.isDirectory (srcDir project state))
        (.run (untar project archive env)),
      .when (fun _ => !env.linux) (.exit 0),
      .run (Extraction.configure project env)]).exec ⟨tree, guess, []⟩).state.actions =
        [.extract, .configure none] := by
  simp only [Circumstances.smooth, Bool.and_eq_true] at smooth
  obtain ⟨⟨linux, removes⟩, unpacks⟩ := smooth
  have removed : Extraction.removeSource project env ⟨tree, guess, []⟩ = (Status.ofBool true,
      ⟨tree.remove (buildDir project ++ [guess]) (fun _ => false), guess, []⟩) := by
    have notDots : ¬ ((buildDir project ++ [guess]).getLast? = some "." ∨
        (buildDir project ++ [guess]).getLast? = some "..") := by
      simp [plain.2.1, plain.2.2]
    simp only [Extraction.removeSource, onTree, srcDir, LinkTree.removeAll, if_neg notDots,
      LinkTree.locate_of_parent cleared.plainBuild cleared.build, removes, if_true]
  have without := cleared.remove guess
  have gone := LinkTree.node_remove_self tree
    (show buildDir project ++ [guess] ≠ [] by simp)
  have missing := isDirectory_of_missing without.plainBuild plain without.build gone
  have unpacked : ∀ later, untar project archive env ⟨later, guess, []⟩ = (Status.ofBool true,
      ⟨(LinkTree.unpack env.directoryMode (archive.map fun member =>
        (components member.name, member.node)) (buildDir project) later).2, guess,
          [.extract]⟩) := by
    intro later
    simp only [untar, unpacks, if_true]
    rfl
  obtain ⟨held, still⟩ := without.unpack_apart top apart gone env.directoryMode
  have nowhere := unresolved_of_missing without.plainBuild plain held still
  have configured : ∀ later : LinkTree String,
      (later.resolve (buildDir project ++ [guess])).filter later.holdsDirectory = none →
        Extraction.configure project env ⟨later, guess, [.extract]⟩ =
          (Status.ofBool env.configures, ⟨later, guess, [.extract, .configure none]⟩) := by
    intro later none
    simp only [Extraction.configure, srcDir, none]
    rfl
  simp only [Script.block, Script.exec_seq, Script.exec_when, clean, linux, if_true,
    Script.exec_run_ofBool removed, Outcome.bind_continues, srcDir, missing, Bool.not_false,
    Script.exec_run_ofBool (unpacked _), Bool.not_true, Bool.false_eq_true, if_false,
    Script.exec_run_ofBool (configured _ nowhere)]
  cases env.configures <;> rfl

theorem worksInside_iff_listedAs (fresh : Fresh project tree directory)
    (isTarball : builder ∈ tarballBuilders) (top : SingleTop archive directory) :
    WorksInside project builder archive directory tree ↔ ListedAs builder archive directory := by
  constructor
  · intro inside
    by_contra apart
    by_cases dots : extractedDir builder (archive.map Member.listed) = "." ∨
        extractedDir builder (archive.map Member.listed) = ".."
    · let env : Circumstances := ⟨false, true, true, fun _ => false, true, 0, true, 0⟩
      obtain ⟨made, cleared, run⟩ := fresh.exec builder archive env
      have done := (inside env).2 rfl
      obtain ⟨place, only⟩ := Cleared.exec_present archive env made
        (cleared.dots_present dots) rfl rfl
      rw [actions, run, only] at done
      cases done
    · let env : Circumstances := ⟨true, true, true, fun _ => false, true, 0, true, 0⟩
      obtain ⟨made, cleared, run⟩ := fresh.exec builder archive env
      have plain : LinkTree.Plain (extractedDir builder (archive.map Member.listed)) :=
        ⟨extractedDir_ne_empty isTarball _, not_or.mp dots⟩
      have done := (inside env).2 rfl
      rw [actions, run, cleared.exec_missing top plain apart env rfl rfl] at done
      cases done
  · intro listed env
    rw [fresh.actions_of_listedAs top listed]
    constructor
    · split
      · exact List.nil_prefix
      · split
        · exact List.prefix_rfl
        · exact ⟨[_], rfl⟩
    · intro smooth
      simp only [Circumstances.smooth, Bool.and_eq_true] at smooth
      obtain ⟨⟨linux, removes⟩, unpacks⟩ := smooth
      simp [linux, removes, unpacks]

end Runs

/-- The builders unpack a tarball with one top-level directory and configure in
that directory if and only if the listing names it before its first slash, and
whatever a tarball lists, the removal stays inside `packages/build`. -/
theorem worksInside_iff_and_removal_confined {builder : Builder}
    (isTarball : builder ∈ tarballBuilders) (project : Path) :
    (∀ (archive : Archive) (directory : String) (tree : LinkTree String),
      SingleTop archive directory → Fresh project tree directory →
      (WorksInside project builder archive directory tree ↔
        ListedAs builder archive directory)) ∧
    ∀ (listing : List String) (env : Circumstances) (tree : LinkTree String) (base : Path),
      tree.resolve (buildDir project) = some base →
      '/' ∉ (extractedDir builder listing).toList ∧
        ∀ path, ¬ (base <+: path ∧ path ≠ base) →
          (removeSource project env ⟨tree, extractedDir builder listing, []⟩).2.tree.node path =
            tree.node path := by
  constructor
  · intro archive directory tree top fresh
    exact worksInside_iff_listedAs fresh isTarball top
  · intro listing env tree base leads
    constructor
    · exact extractedDir_noSlash isTarball listing
    · intro path outside
      exact LinkTree.removeAll_outside leads outside

/-! ## Two spellings -/

/-- A tree with a tarball and no `packages/build` yet. -/
def unbuilt : LinkTree String :=
  .ofEntries [(["packages"], .directory 0o755), (["packages", "tarballs"], .directory 0o755),
    (["packages", "tarballs", "busybox.tar.gz"], .file "" 0o644)]

/-- A tarball with one file, its names spelled with something in front and listed
as they are. -/
def helloArchive (front : String) : Archive :=
  [⟨front ++ "hello/", front ++ "hello/", .directory 0o755⟩,
    ⟨front ++ "hello/configure", front ++ "hello/configure", .file "" 0o755⟩]

theorem unbuilt_fresh : Fresh [] unbuilt "hello" where
  plain := by
    intro name member
    cases member
  packages := by decide +kernel
  build := .inr (by decide +kernel)
  missing := by decide +kernel

theorem helloArchive_single {front : String} (spelled : front = "" ∨ front = "./") :
    SingleTop (helloArchive front) "hello" where
  single := by decide
  plain := by decide
  nonempty := List.cons_ne_nil _ _
  members := by
    intro member isMember
    have names : member = ⟨front ++ "hello/", front ++ "hello/", .directory 0o755⟩ ∨
        member = ⟨front ++ "hello/configure", front ++ "hello/configure", .file "" 0o755⟩ := by
      simpa [helloArchive] using isMember
    rcases names with rfl | rfl
    · refine ⟨"", ?_, by decide +kernel, fun _ => rfl⟩
      rcases spelled with rfl | rfl
      · exact .inl rfl
      · exact .inr rfl
    · refine ⟨"configure", ?_, by decide +kernel, fun none => absurd none (by decide +kernel)⟩
      rcases spelled with rfl | rfl
      · exact .inl rfl
      · exact .inr rfl

/-- With a dot in front the tarball is not unpacked and the build directory
itself is configured. -/
theorem dotted_not_worksInside :
    ¬ ∀ builder ∈ tarballBuilders, ∀ (project : Path) (archive : Archive) (directory : String)
      (tree : LinkTree String), SingleTop archive directory → Fresh project tree directory →
        WorksInside project builder archive directory tree := by
  intro inside
  have works := inside .busybox (by decide) [] (helloArchive "./") "hello" unbuilt
    (helloArchive_single (.inr rfl)) unbuilt_fresh
  let env : Circumstances := ⟨false, true, true, fun _ => false, true, 0, true, 0o755⟩
  have done := (works env).2 rfl
  revert done
  decide +kernel

theorem hello_worksInside : WorksInside [] .busybox (helloArchive "") "hello" unbuilt := by
  have isTarball : Builder.busybox ∈ tarballBuilders := by decide
  exact ((worksInside_iff_and_removal_confined isTarball []).1 (helloArchive "") "hello" unbuilt
    (helloArchive_single (.inl rfl)) unbuilt_fresh).mpr
      (listedAs_of_first "" (by decide) (by decide) rfl)

end AqjOs.Build.Extraction
