import AqjOs.Build.Pipeline
import AqjOs.Files.Walks
import AqjOs.Shell.Triple

/-!
# The kernel that is shipped

`build_kernel.sh` delivers its image to `iso/boot`, and `build_iso.sh` looks for
one in `iso`.  Nothing in the pipeline writes the file that is looked for, so
that the staged kernel is whatever lies there, or an empty placeholder.  The
staging tree itself is fresh: whatever links lead to it, everything in it has
been made by `build_iso.sh`.
-/

namespace AqjOs.Build

open AqjOs.Files AqjOs.Shell

/-! ## The staging tree -/

/-- The staging tree stands at a place of its own, has no links in it, and holds
the given node as its kernel. -/
structure Staging (place : Path) (kernel : Option (Node String)) (tree : Machine) : Prop where
  leads : tree.resolve stagingDir = some place
  directory : tree.holdsDirectory place = true
  unlinked : ∀ rest, tree.holdsLink (place ++ rest) = false
  kernel : tree.node (place ++ ["boot", "vmlinuz-7.1.8"]) = kernel

section Staging

variable {place : Path} {kernel : Option (Node String)} {tree next : Machine} {names : List String}

/-- A path in the staging tree means itself. -/
theorem Staging.resolve_eq (staging : Staging place kernel tree)
    (plain : ∀ name ∈ names, LinkTree.Plain name) (proper : names ≠ []) {found : Path}
    (resolved : tree.resolve (stagingDir ++ names) = some found) : found = place ++ names := by
  obtain ⟨base, reached, directory, follow, onward⟩ :=
    LinkTree.walk_split proper tree.holdsDirectory_nil tree.holdsDirectory_nil resolved
  obtain rfl : place = base := Option.some.inj (staging.leads.symm.trans reached)
  exact LinkTree.walkWith_straight plain (fun above _ => staging.unlinked above) directory onward

/-- The kernel is found if its directory is there. -/
theorem Staging.resolve_kernel (staging : Staging place kernel tree) (present : kernel ≠ none) :
    tree.resolve stagedKernel = some (place ++ ["boot", "vmlinuz-7.1.8"]) := by
  have split : place ++ ["boot", "vmlinuz-7.1.8"] = place ++ ["boot"] ++ ["vmlinuz-7.1.8"] := by
    simp
  have boot : tree.holdsDirectory (place ++ ["boot"]) = true := by
    apply LinkTree.holdsDirectory_parent
    rw [← split, staging.kernel]
    exact present
  apply LinkTree.walk_continue staging.directory _ staging.leads
  intro follow
  have plain : LinkTree.Plain "boot" ∧ LinkTree.Plain "vmlinuz-7.1.8" := by decide
  obtain ⟨mode, there⟩ := LinkTree.holdsDirectory_iff.mp boot
  have notLink := staging.unlinked ["boot", "vmlinuz-7.1.8"]
  rw [LinkTree.walkWith_cons plain.1, there]
  simp only
  rw [LinkTree.walkWith_cons plain.2, ← split]
  rcases held : tree.node (place ++ ["boot", "vmlinuz-7.1.8"]) with
    _ | (mode | ⟨content, mode⟩ | target)
  · simp
  · simp
  · simp
  · rw [LinkTree.holdsLink, held] at notLink
    contradiction

/-- Putting anything but a link into the staging tree keeps it one. -/
theorem Staging.set (staging : Staging place kernel tree) {new : Node String}
    (notLink : new.isLink = false) (placed : tree.set (place ++ names) new = some next) :
    Staging place (if names = ["boot", "vmlinuz-7.1.8"] then some new else kernel) next := by
  have grows := LinkTree.extends_set placed (staging.unlinked names)
  constructor
  · exact LinkTree.resolve_extends grows staging.directory staging.leads
  · exact (grows place).1 staging.directory
  · intro rest
    rw [LinkTree.holdsLink, LinkTree.node_set placed]
    split
    · exact notLink
    · exact staging.unlinked rest
  · rw [LinkTree.node_set placed, staging.kernel]
    simp [eq_comm]

theorem Staging.writeFile (staging : Staging place kernel tree) {content : String} {mode : Nat}
    (plain : ∀ name ∈ names, LinkTree.Plain name) (proper : names ≠ [])
    (written : tree.writeFile content mode (stagingDir ++ names) = some next) :
    ∃ mode, Staging place
      (if names = ["boot", "vmlinuz-7.1.8"] then some (.file content mode) else kernel) next := by
  obtain ⟨found, resolved, written⟩ := Option.bind_eq_some_iff.mp written
  obtain rfl := staging.resolve_eq plain proper resolved
  split at written
  · exact ⟨_, staging.set rfl written⟩
  · exact ⟨_, staging.set rfl written⟩
  · contradiction

/-- Apart from the kernel, a file may be written anywhere. -/
theorem Staging.writeOther (staging : Staging place kernel tree) {content : String} {mode : Nat}
    (plain : ∀ name ∈ names, LinkTree.Plain name) (proper : names ≠ [])
    (other : names ≠ ["boot", "vmlinuz-7.1.8"])
    (written : tree.writeFile content mode (stagingDir ++ names) = some next) :
    Staging place kernel next := by
  obtain ⟨mode, written⟩ := staging.writeFile plain proper written
  rwa [if_neg other] at written

theorem Staging.makeDirectory (staging : Staging place kernel tree) {mode : Nat}
    (plain : ∀ name ∈ names, LinkTree.Plain name) {name : String}
    (other : names ++ [name] ≠ ["boot", "vmlinuz-7.1.8"])
    (made : tree.makeDirectory mode (stagingDir ++ names ++ [name]) = some next) :
    Staging place kernel next := by
  unfold LinkTree.makeDirectory at made
  split at made
  · cases made
    exact staging
  · obtain ⟨found, located, made⟩ := Option.bind_eq_some_iff.mp made
    obtain ⟨parent, resolved, _, rfl⟩ := LinkTree.locate_concat_eq_some.mp located
    have here : parent = place ++ names := by
      by_cases root : names = []
      · subst root
        rw [List.append_nil] at resolved ⊢
        exact Option.some.inj (resolved.symm.trans staging.leads)
      · exact staging.resolve_eq plain root resolved
    subst here
    split at made
    · rw [List.append_assoc] at made
      have kept := staging.set rfl made
      rwa [if_neg other] at kept
    · contradiction

/-- The directories above the staging tree are there. -/
theorem Staging.isDirectory_above (staging : Staging place kernel tree) {above rest : Path}
    (whole : above ++ rest = stagingDir) : tree.isDirectory above = true := by
  by_cases last : rest = []
  · subst last
    rw [List.append_nil] at whole
    rw [whole, LinkTree.isDirectory, staging.leads, Option.any_some]
    exact staging.directory
  · have leads := staging.leads
    rw [← whole] at leads
    obtain ⟨base, reached, directory, _⟩ :=
      LinkTree.walk_split last tree.holdsDirectory_nil tree.holdsDirectory_nil leads
    have resolved : tree.resolve above = some base := reached
    rw [LinkTree.isDirectory, resolved, Option.any_some]
    exact directory

end Staging

/-! ## The commands of `build_iso.sh` -/

section Commands

variable {env : Environment} {place : Path} {kernel : Option (Node String)} {names : List String}

theorem copyOther_staging (source : Path) (plainLast : LinkTree.Plain (source.getLastD ""))
    (plain : ∀ name ∈ names, LinkTree.Plain name) (proper : names ≠ [])
    (other : names ≠ ["boot", "vmlinuz-7.1.8"] ∧
      names ++ [source.getLastD ""] ≠ ["boot", "vmlinuz-7.1.8"]) (tree : Machine)
    (staging : Staging place kernel tree) :
    Staging place kernel (copy env source (stagingDir ++ names) tree).2 := by
  apply Command.ofOption_snd (Staging place kernel)
  · exact staging
  · intro next copied
    obtain ⟨file, _, copied⟩ := Option.bind_eq_some_iff.mp copied
    split at copied
    · contradiction
    · unfold LinkTree.overwrite at copied
      split at copied
      · contradiction
      · unfold copyTarget at copied
        split at copied
        · rw [List.append_assoc] at copied
          apply staging.writeOther _ (by simp) other.2 copied
          intro name member
          rcases List.mem_append.mp member with inNames | last
          · exact plain name inNames
          · rwa [List.mem_singleton.mp last]
        · exact staging.writeOther plain proper other.1 copied

theorem copyLimine_staging {file : String} (plainFile : LinkTree.Plain file)
    (plain : ∀ name ∈ names, LinkTree.Plain name) (proper : names ≠ [])
    (other : names ≠ ["boot", "vmlinuz-7.1.8"] ∧ names ++ [file] ≠ ["boot", "vmlinuz-7.1.8"]) :
    (copyLimine env file (stagingDir ++ names)).Preserves (Staging place kernel) := by
  have copied (directory : Path) (tree : Machine) (staging : Staging place kernel tree) :
      Staging place kernel (copy env (directory ++ [file]) (stagingDir ++ names) tree).2 := by
    have last : (directory ++ [file]).getLastD "" = file := List.getLastD_concat ..
    apply copyOther_staging _ _ plain proper _ tree staging
    · rwa [last]
    · rwa [last]
  exact ⟨copied limineBinDir, copied limineDir, trivial⟩

theorem stageLimine_staging (env : Environment) : (stageLimine env).Preserves (Staging place kernel) :=
  ⟨copyLimine_staging (by decide) (by decide) (by decide) (by decide),
    copyLimine_staging (by decide) (by decide) (by decide) (by decide),
    copyLimine_staging (by decide) (by decide) (by decide) (by decide),
    copyLimine_staging (by decide) (by decide) (by decide) (by decide),
    copyLimine_staging (by decide) (by decide) (by decide) (by decide), trivial⟩

/-- One directory of a successful `mkdir -p`. -/
theorem made_of_mkdir {path : Path} {commands : List (Command Machine)} {tree : Machine}
    {mode : Nat} (success : (Command.each
      (.ofOption (LinkTree.makeDirectory mode path) :: commands) tree).1 = .success) :
    ∃ next, tree.makeDirectory mode path = some next ∧
      (Command.each commands next).1 = .success ∧
      (Command.each (.ofOption (LinkTree.makeDirectory mode path) :: commands) tree).2 =
        (Command.each commands next).2 := by
  obtain ⟨first, rest⟩ := Command.each_success_cons success
  exact ⟨_, Command.ofOption_success first, rest, rfl⟩

/-- The first `mkdir -p` makes an empty staging tree. -/
theorem mkdirBoot_staging {tree : Machine} (absent : LinkTree.Absent stagingDir tree)
    (success : (mkdir env [stagingDir ++ ["boot", "limine"]] tree).1 = .success) :
    ∃ place, Staging place none (mkdir env [stagingDir ++ ["boot", "limine"]] tree).2 := by
  have steps : mkdir env [stagingDir ++ ["boot", "limine"]] =
      .each ([["workspace"], ["workspace", "iso"], isoDir ++ ["staging"],
        stagingDir ++ [] ++ ["boot"], stagingDir ++ ["boot"] ++ ["limine"]].map
          fun path => .ofOption (LinkTree.makeDirectory env.directoryMode path)) := rfl
  rw [steps] at success ⊢
  simp only [List.map_cons, List.map_nil] at success ⊢
  obtain ⟨first, made₁, success, same₁⟩ := made_of_mkdir success
  obtain ⟨second, made₂, success, same₂⟩ := made_of_mkdir success
  obtain ⟨third, made₃, success, same₃⟩ := made_of_mkdir success
  obtain ⟨fourth, made₄, success, same₄⟩ := made_of_mkdir success
  obtain ⟨fifth, made₅, success, same₅⟩ := made_of_mkdir success
  have absent₁ : LinkTree.Absent stagingDir first := by
    have split : stagingDir = [] ++ ["workspace"] ++ ["iso"] ++ ["staging"] := rfl
    rw [split] at absent ⊢
    exact absent.makeDirectory (by decide) (by decide) made₁
  have absent₂ : LinkTree.Absent stagingDir second := by
    have split : stagingDir = ["workspace"] ++ ["iso"] ++ [] ++ ["staging"] := rfl
    rw [split] at absent₁ ⊢
    exact absent₁.makeDirectory (by decide) (by decide) made₂
  obtain ⟨place, leads, directory, empty⟩ := absent₂.made (by decide) made₃
  have fresh : Staging place none third := by
    refine ⟨leads, directory, ?_, empty _ (by simp)⟩
    intro rest
    by_cases root : rest = []
    · rw [root, List.append_nil]
      exact LinkTree.holdsLink_eq_false_of_holdsDirectory directory
    · rw [LinkTree.holdsLink, empty rest root]
      rfl
  have boot : Staging place none fourth := fresh.makeDirectory (by simp) (by decide) made₄
  have limine : Staging place none fifth := boot.makeDirectory (by decide) (by decide) made₅
  refine ⟨place, ?_⟩
  rw [same₁, same₂, same₃, same₄, same₅]
  exact limine

theorem mkdirEfi_staging (tree : Machine) (staging : Staging place kernel tree) :
    Staging place kernel (mkdir env [stagingDir ++ ["EFI", "BOOT"]] tree).2 := by
  apply Command.each_snd (Staging place kernel) _ staging
  intro command member tree staging
  obtain ⟨path, listed, rfl⟩ := List.mem_map.mp member
  apply Command.ofOption_snd (Staging place kernel)
  · exact staging
  · intro next made
    have paths : [stagingDir ++ ["EFI", "BOOT"]].flatMap (fun path => path.inits.tail) =
        [["workspace"], ["workspace", "iso"], stagingDir, stagingDir ++ [] ++ ["EFI"],
          stagingDir ++ ["EFI"] ++ ["BOOT"]] := by
      decide
    rw [paths] at listed
    have above {rest : Path} (whole : path ++ rest = stagingDir) : Staging place kernel next := by
      rw [LinkTree.makeDirectory, if_pos (staging.isDirectory_above whole)] at made
      cases made
      exact staging
    simp only [List.mem_cons, List.not_mem_nil, or_false] at listed
    rcases listed with rfl | rfl | rfl | rfl | rfl
    · exact above (show ["workspace"] ++ ["iso", "staging"] = stagingDir from rfl)
    · exact above (show ["workspace", "iso"] ++ ["staging"] = stagingDir from rfl)
    · exact above (List.append_nil _)
    · exact staging.makeDirectory (by simp) (by decide) made
    · exact staging.makeDirectory (by decide) (by decide) made

/-- Steps 4 and 5 leave a staging tree without a kernel. -/
theorem prepareStaging_staging :
    (prepareStaging env).Triple (fun _ => True) (fun tree => ∃ place, Staging place none tree)
      (fun _ => True) := by
  have removed : (Script.run (remove env stagingDir)).Triple (fun _ => True)
      (LinkTree.Absent stagingDir) (fun _ => True) := by
    apply Script.triple_run
    · intro tree _ success
      exact LinkTree.absent_of_removeAll (Prod.ext success rfl)
    · exact fun _ _ _ => trivial
  have made : (Script.run (mkdir env [stagingDir ++ ["boot", "limine"]])).Triple
      (LinkTree.Absent stagingDir) (fun tree => ∃ place, Staging place none tree)
      (fun _ => True) := by
    apply Script.triple_run
    · exact fun tree absent success => mkdirBoot_staging absent success
    · exact fun _ _ _ => trivial
  have rest : (Script.block [
      .run (mkdir env [stagingDir ++ ["EFI", "BOOT"]]),
      .when (fun tree => tree.isFile initramfsOut)
        (.run (copy env initramfsOut (stagingDir ++ ["boot", "initramfs.img"]))),
      .ite (fun tree => tree.isFile limineConf)
        (.run (copy env limineConf (stagingDir ++ ["boot", "limine", "limine.conf"])))
        (.run (redirect env (stagingDir ++ ["boot", "limine", "limine.conf"])
          defaultLimineConf))]).Preserves (fun tree => ∃ place, Staging place none tree) := by
    refine ⟨?_, ⟨?_, trivial⟩, ⟨?_, ?_⟩, trivial⟩
    · rintro tree ⟨place, staging⟩
      exact ⟨place, mkdirEfi_staging tree staging⟩
    · rintro tree ⟨place, staging⟩
      exact ⟨place, copyOther_staging _ (by decide) (by decide) (by decide) (by decide) tree
        staging⟩
    · rintro tree ⟨place, staging⟩
      exact ⟨place, copyOther_staging _ (by decide) (by decide) (by decide) (by decide) tree
        staging⟩
    · rintro tree ⟨place, staging⟩
      refine ⟨place, ?_⟩
      apply Command.ofOption_snd (Staging place none) staging
      exact fun next written =>
        staging.writeOther (by decide) (by decide) (by decide) written
  exact Script.triple_seq removed (Script.triple_seq made rest.triple.forget)

/-- What step 6 stages: the contents of the image that is looked for, or nothing. -/
def stagedContent (tree : Machine) : String :=
  ((tree.fileAt kernelImage).map Prod.fst).getD ""

theorem stageKernel_staging (looked : Machine) :
    (stageKernel env).Triple (fun tree => tree = looked ∧ Staging place none tree)
      (fun tree => ∃ mode, Staging place (some (.file (stagedContent looked) mode)) tree)
      (fun _ => True) := by
  have plain : ∀ name ∈ ["boot", "vmlinuz-7.1.8"], LinkTree.Plain name := by decide
  apply Script.triple_ite
  · apply Script.triple_run_ofOption
    rintro tree next ⟨⟨rfl, staging⟩, _⟩ copied
    obtain ⟨file, found, copied⟩ := Option.bind_eq_some_iff.mp copied
    have content : stagedContent tree = file.1 := by simp [stagedContent, found]
    have notDirectory : tree.isDirectory stagedKernel = false := by
      rw [LinkTree.isDirectory]
      cases resolved : tree.resolve stagedKernel with
      | none => rfl
      | some found =>
          obtain rfl := staging.resolve_eq plain (by simp) resolved
          rw [Option.any_some, LinkTree.holdsDirectory, staging.kernel]
          rfl
    split at copied
    · contradiction
    · rw [copyTarget, notDirectory, if_neg Bool.false_ne_true] at copied
      unfold LinkTree.overwrite at copied
      split at copied
      · contradiction
      · rw [content]
        exact staging.writeFile plain (by simp) copied
  · have touched : (Script.run (touch env stagedKernel)).Triple
        (fun tree => (tree = looked ∧ Staging place none tree) ∧
          tree.isFile kernelImage = false)
        (fun tree => ∃ mode, Staging place (some (.file (stagedContent looked) mode)) tree)
        (fun _ => True) := by
      apply Script.triple_run_ofOption
      rintro tree next ⟨⟨rfl, staging⟩, notFile⟩ defined
      have content : stagedContent tree = "" := by
        rw [LinkTree.isFile, Option.isSome_eq_false_iff, Option.isNone_iff_eq_none] at notFile
        rw [stagedContent, notFile]
        rfl
      have missing : leadsSomewhere stagedKernel tree = false := by
        rw [leadsSomewhere]
        cases resolved : tree.resolve stagedKernel with
        | none => rfl
        | some found =>
            obtain rfl := staging.resolve_eq plain (by simp) resolved
            rw [Option.any_some, staging.kernel]
            rfl
      rw [missing, if_neg Bool.false_ne_true] at defined
      rw [content]
      exact staging.writeFile plain (by simp) defined
    have kept (mode : Nat) (tree : Machine)
        (staging : Staging place (some (.file (stagedContent looked) mode)) tree) :
        Staging place (some (.file (stagedContent looked) mode))
          (touch env (stagingDir ++ ["boot", "initramfs.img"]) tree).2 := by
      apply Command.ofOption_snd (Staging place _) staging
      intro next defined
      split at defined
      · cases defined
        exact staging
      · exact staging.writeOther (by decide) (by decide) (by decide) defined
    apply Script.triple_seq touched
    apply Script.triple_seq _ Script.triple_skip
    apply Script.Triple.forget
    apply Script.triple_run_same
    rintro tree ⟨mode, staging⟩
    exact ⟨mode, kept mode tree staging⟩

theorem buildIso_exitsNonzero : (buildIso env).ExitsNonzero := by
  have iso : (writeIso env).ExitsNonzero := by
    unfold writeIso
    cases env.xorriso <;> simp [Script.when, Script.ExitsNonzero]
  simp [buildIso, prepareIso, buildLimine, prepareStaging, stageKernel, stageLimine, copyLimine,
    Script.block, Script.when, Script.ExitsNonzero, iso]

end Commands

/-! ## The whole pipeline -/

/-- The path leads to a regular file with these contents. -/
def Contains (content : String) (path : Path) (tree : Machine) : Prop :=
  ∃ mode, tree.fileAt path = some (content, mode)

/-- The tree in which `build_iso.sh` comes to step 6 and looks for the kernel. -/
def beforeStep6 (env : Environment) (initial : Machine) : Machine :=
  ((Script.block [prepareIso env, prepareStaging env]).exec
    ((buildInputs env).exec initial).state).state

/-- The tree in which `build_iso.sh` comes to `xorriso`. -/
def handedOver (env : Environment) (initial : Machine) : Machine :=
  ((Script.block [stageKernel env, stageLimine env]).exec (beforeStep6 env initial)).state

section Pipeline

variable {env : Environment} {initial final : Machine}

/-- A pipeline that runs to its end runs through the two trees. -/
theorem exec_buildAll (finished : (buildAll env).exec initial = .continues final) :
    (∃ prepared, (prepareStaging env).exec prepared = .continues (beforeStep6 env initial)) ∧
      (Script.block [stageKernel env, stageLimine env]).exec (beforeStep6 env initial) =
        .continues (handedOver env initial) := by
  obtain ⟨inputs, before, iso⟩ := Script.exec_seq_eq_continues.mp finished
  obtain ⟨called, called_eq, _⟩ := Script.exec_seq_eq_continues.mp iso
  rw [Script.exec_run_call] at called_eq
  split at called_eq
  · rename_i success
    obtain ⟨last, ran⟩ := buildIso_exitsNonzero.continues success
    obtain ⟨prepared, first, ran⟩ := Script.exec_seq_eq_continues.mp ran
    obtain ⟨looked, second, ran⟩ := Script.exec_seq_eq_continues.mp ran
    obtain ⟨staged, third, ran⟩ := Script.exec_seq_eq_continues.mp ran
    obtain ⟨handed, fourth, _⟩ := Script.exec_seq_eq_continues.mp ran
    have early : (Script.block [prepareIso env, prepareStaging env]).exec inputs =
        .continues looked :=
      Script.exec_seq_eq_continues.mpr ⟨prepared, first,
        Script.exec_seq_eq_continues.mpr ⟨looked, second, rfl⟩⟩
    have late : (Script.block [stageKernel env, stageLimine env]).exec looked =
        .continues handed :=
      Script.exec_seq_eq_continues.mpr ⟨staged, third,
        Script.exec_seq_eq_continues.mpr ⟨handed, fourth, rfl⟩⟩
    have looked_eq : beforeStep6 env initial = looked := by
      rw [beforeStep6, before, Outcome.state_continues, early, Outcome.state_continues]
    have handed_eq : handedOver env initial = handed := by
      rw [handedOver, looked_eq, late, Outcome.state_continues]
    rw [looked_eq, handed_eq]
    exact ⟨⟨prepared, second⟩, late⟩
  · contradiction

/-- Whatever the programs do and whatever lies in the tree, the staged kernel has
the contents of the image that step 6 finds, or it is empty. -/
theorem handedOver_contains (finished : (buildAll env).exec initial = .continues final) :
    ∃ mode, (handedOver env initial).fileAt stagedKernel =
      some (stagedContent (beforeStep6 env initial), mode) := by
  obtain ⟨⟨_, prepared⟩, staged⟩ := exec_buildAll finished
  obtain ⟨place, staging⟩ := prepareStaging_staging.continues trivial prepared
  obtain ⟨middle, kernel, limine⟩ := Script.exec_seq_eq_continues.mp staged
  obtain ⟨mode, staging⟩ := (stageKernel_staging (beforeStep6 env initial)).continues
    ⟨rfl, staging⟩ kernel
  have kept : (Script.block [stageLimine env]).Triple
      (Staging place (some (.file (stagedContent (beforeStep6 env initial)) mode)))
      (Staging place (some (.file (stagedContent (beforeStep6 env initial)) mode)))
      (fun _ => True) :=
    Script.triple_seq (stageLimine_staging env).triple.forget Script.triple_skip
  have staging := kept.continues staging limine
  refine ⟨mode, ?_⟩
  rw [LinkTree.fileAt, staging.resolve_kernel (by simp), Option.bind_some, staging.kernel]

theorem stagedContent_eq_iff (tree : Machine) (content : String) :
    stagedContent tree = content ↔
      Contains content kernelImage tree ∨ (tree.isFile kernelImage = false ∧ content = "") := by
  unfold stagedContent LinkTree.isFile Contains
  rcases tree.fileAt kernelImage with _ | ⟨old, mode⟩
  · simp [eq_comm]
  · simp

/-- The image that `build_kernel.sh` leaves is the kernel that `xorriso` is given. -/
def Shipped (env : Environment) (initial : Machine) : Prop :=
  ∀ content, Contains content bzImage ((buildKernel env).exec initial).state →
    Contains content stagedKernel (handedOver env initial)

end Pipeline

/-! ## Two projects -/

/-- A project with the unpacked source of the kernel, and what lies in `iso`. -/
def sourceProject (iso : List (Path × Node String)) : Machine :=
  .ofEntries ([
    (projectRoot, .directory 0o755),
    (projectRoot ++ ["kernel"], .directory 0o755),
    (projectRoot ++ ["kernel", "tarballs"], .directory 0o755),
    (kernelTarball, .file "tarball" 0o644),
    (kernelBuildDir, .directory 0o755),
    (kernelSrcDir, .directory 0o755),
    (kernelSrcDir ++ ["arch"], .directory 0o755),
    (kernelSrcDir ++ ["arch", "x86"], .directory 0o755),
    (kernelSrcDir ++ ["arch", "x86", "boot"], .directory 0o755),
    (limineDir, .directory 0o755)] ++ iso)

/-- A program that writes one file. -/
def writes (path : Path) (content : String) : Command Machine :=
  .ofOption (LinkTree.writeFile content 0o644 path)

/-- On Linux every program succeeds; `make` leaves the image and `System.map`, and
`xorriso` its output. -/
def workingEnvironment : Environment where
  linux := true
  clean := false
  patches := []
  unpack tree := (.success, tree)
  patch _ tree := (.success, tree)
  make target :=
    match target with
    | .bzImage => .each [writes systemMap "map", writes bzImage "kernel"]
    | _ => fun tree => (.success, tree)
  modulesInstall tree := (.success, tree)
  populateRootfs tree := (.success, tree)
  configureLimine tree := (.success, tree)
  makeLimine tree := (.success, tree)
  initramfsExecutable := true
  cpio := ⟨true, "initramfs"⟩
  listInitramfs := true
  xorriso := some fun _ => writes (isoDir ++ ["aqj-os-7.1.8-x86_64.iso"]) "image"
  biosInstall tree := (.success, tree)
  removes := true
  kept _ := false
  directoryMode := 0o755
  fileMode := 0o644
  copyMode := id

/-- A project in which `iso/vmlinuz-7.1.8` is a link to what `build_kernel.sh`
delivers. -/
def linkedProject : Machine :=
  sourceProject [(isoDir, .directory 0o755),
    (kernelImage, .link ⟨false, ["boot", "vmlinuz-7.1.8"]⟩)]

end AqjOs.Build
