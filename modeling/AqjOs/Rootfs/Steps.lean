import AqjOs.Rootfs.Effects

/-!
# The effects of the commands

Each command of the script, on a tree that is ready for it, changes the nodes
that it names, each by itself.
-/

namespace AqjOs.Rootfs

open AqjOs.Files AqjOs.Shell AqjOs.Shell.Script

section Steps

variable {setting : Setting} {known : List Path} {path : Path} {sure : Bool}

/-! ## `mkdir -p` -/

/-- A directory that the script makes. -/
def Made (path : Path) : Prop :=
  role path = .directory ∨ path ∈ leafDirectories

instance (path : Path) : Decidable (Made path) :=
  inferInstanceAs (Decidable (_ ∨ _))

theorem Made.slot (made : Made path) : slot setting path = .directory := by
  rcases made with directory | listed
  · exact slot_directory directory
  · exact slot_leafDirectory listed

theorem Made.style {env : Environment} (made : Made path) : style env path = .made := by
  rcases made with directory | listed
  · exact style_directory directory
  · have free : ∀ path ∈ leafDirectories, role path = .free ∧ path ∉ libraries := by decide
    exact style_free (free path listed).1 (free path listed).2

theorem neat_create {mode : Nat} (directory : slot setting path = .directory) :
    Neat setting (Effect.single path (Change.create (.directory mode))) := by
  apply neat_single
  · rw [directory]
    exact fun _ possible => Slot.admits_create possible mode
  · exact Change.keeps_create _

theorem does_makeDirectory (made : Made path) (mode : Nat)
    (plain : ∀ name ∈ path, LinkTree.Plain name)
    (placed : path ≠ [] → Placed setting known path) :
    Does setting known (.ofOption (LinkTree.makeDirectory mode (setting.project.rootfs path)))
      sure [Effect.single path (Change.create (.directory mode))] (path :: known) := by
  apply does_ofOption
  intro tree ready
  have after : ∀ next, Acted setting.project
      (Effect.all [Effect.single path (Change.create (.directory mode))]) tree next →
      Ready setting (path :: known) next := by
    intro next acted
    apply (ready.acted (neat_create made.slot) acted).cons
    rw [acted.inside, Effect.all_cons, Effect.all_nil, Effect.single, if_pos rfl]
    cases tree.node (setting.project.rootfs path) with
    | none => exact Option.some_ne_none _
    | some old => exact Option.some_ne_none _
  have above : tree.holdsDirectory (setting.project.rootfs path).dropLast = true := by
    by_cases proper : path = []
    · subst proper
      have outer : (setting.project.rootfs []).dropLast = setting.project.path := by
        simp [Project.rootfs]
      rw [outer]
      exact ready.fit.reached
    · exact (placed proper).above ready
  rcases ready.fit.directory_cases made.slot with missing | directory
  · obtain ⟨next, set⟩ : ∃ next,
        tree.set (setting.project.rootfs path) (.directory mode) = some next :=
      LinkTree.exists_set (by simp [Project.rootfs]) above (fun _ => rfl)
    have acted : Acted setting.project
        (Effect.all [Effect.single path (Change.create (.directory mode))]) tree next := by
      apply acted_of_set set
      rw [missing]
      rfl
    refine ⟨next, ?_, acted, after next acted⟩
    rw [LinkTree.makeDirectory_missing (plain_rootfs plain) (by simp [Project.rootfs]) above mode
      missing, set]
  · have acted : Acted setting.project
        (Effect.all [Effect.single path (Change.create (.directory mode))]) tree tree := by
      apply acted_of_fixed
      obtain ⟨kept, there⟩ := LinkTree.holdsDirectory_iff.mp directory
      rw [there]
      rfl
    refine ⟨tree, ?_, acted, after tree acted⟩
    rw [LinkTree.makeDirectory,
      if_pos (LinkTree.isDirectory_of_holdsDirectory (plain_rootfs plain) directory)]

/-- Above the rootfs there is nothing to make. -/
theorem does_makeProject {above : Path} (under : above <+: setting.project.path) (mode : Nat) :
    Does setting known (.ofOption (LinkTree.makeDirectory mode above)) sure [] known := by
  apply does_ofOption
  intro tree ready
  obtain ⟨rest, whole⟩ := under
  have directory : tree.holdsDirectory above = true := by
    have reached := ready.fit.reached
    rw [← whole] at reached
    exact LinkTree.holdsDirectory_of_append reached
  have plain : ∀ name ∈ above, LinkTree.Plain name := fun name member =>
    setting.project.plain name (by rw [← whole]; simp [member])
  refine ⟨tree, ?_, .refl, ready⟩
  rw [LinkTree.makeDirectory,
    if_pos (LinkTree.isDirectory_of_holdsDirectory plain directory)]

theorem does_makeProjects {places : List Path}
    (under : ∀ place ∈ places, place <+: setting.project.path) (mode : Nat) :
    Does setting known (.each (places.map fun place =>
      .ofOption (LinkTree.makeDirectory mode place))) sure [] known := by
  induction places with
  | nil => exact does_each_nil
  | cons place places ih =>
      exact does_each_cons (does_makeProject (under place (by simp)) mode)
        (ih fun other member => under other (by simp [member]))

theorem inits_tail_rootfs (project : Project) (path : Path) :
    (project.rootfs path).inits.tail =
      project.path.inits.tail ++ path.inits.map project.rootfs := by
  have nonempty : project.path.inits ≠ [] := by
    cases project.path <;> simp
  rw [Project.rootfs, List.inits_append, List.inits_cons, List.tail_cons, List.map_map,
    List.tail_append_of_ne_nil nonempty]
  rfl

theorem inits_concat (above : Path) (name : String) :
    (above ++ [name]).inits = above.inits ++ [above ++ [name]] := by
  rw [List.inits_append]
  rfl

/-- A path that `mkdir -p` makes. -/
def Makes (path : Path) : Prop :=
  (∀ name ∈ path, LinkTree.Plain name) ∧ ∀ above ∈ path.inits, Made above

instance (path : Path) : Decidable (Makes path) :=
  inferInstanceAs (Decidable (_ ∧ _))

/-- The effects of `mkdir -p` on one operand. -/
def makeEffects (mode : Nat) (path : Path) : List Effect :=
  path.inits.map fun above => Effect.single above (Change.create (.directory mode))

theorem does_makePath (makes : Makes path) (mode : Nat) :
    Does setting known (.each (path.inits.map fun above =>
        .ofOption (LinkTree.makeDirectory mode (setting.project.rootfs above)))) sure
      (makeEffects mode path) (path.inits ++ known) := by
  unfold makeEffects
  induction path using List.reverseRecOn with
  | nil =>
      have first : Does setting known
          (.ofOption (LinkTree.makeDirectory mode (setting.project.rootfs []))) sure
          [Effect.single [] (Change.create (.directory mode))] ([] :: known) :=
        does_makeDirectory (makes.2 [] (by simp)) mode (by simp) (absurd rfl)
      exact does_each_cons first does_each_nil
  | append_singleton above name ih =>
      obtain ⟨plain, made⟩ := makes
      have earlier : Makes above := by
        refine ⟨fun other member => plain other (by simp [member]), ?_⟩
        intro other member
        exact made other (by rw [inits_concat]; simp [member])
      have last : Does setting (above.inits ++ known)
          (.ofOption (LinkTree.makeDirectory mode (setting.project.rootfs (above ++ [name]))))
          sure [Effect.single (above ++ [name]) (Change.create (.directory mode))]
          ((above ++ [name]) :: (above.inits ++ known)) := by
        apply does_makeDirectory (made _ (by simp)) mode plain
        intro proper
        refine ⟨proper, plain, by simp, ?_⟩
        rw [List.dropLast_concat]
        exact (earlier.2 above (by simp)).slot
      rw [inits_concat, List.map_append, List.map_append]
      apply does_each_append (ih earlier)
      apply (does_each_cons last does_each_nil).mono (fun _ known => known)
      intro other member
      simp only [List.mem_append, List.mem_cons, List.not_mem_nil, or_false] at member ⊢
      tauto

/-- `mkdir -p` makes every directory on the way to its operands. -/
theorem does_mkdir {paths : List Path} (makes : ∀ path ∈ paths, Makes path) :
    Does setting known (mkdir setting.project setting.env paths) true
      (paths.flatMap (makeEffects setting.env.directoryMode))
      (paths.flatMap List.inits ++ known) := by
  unfold mkdir LinkTree.mkdirs
  induction paths generalizing known with
  | nil => exact does_each_nil
  | cons path paths ih =>
      have first : Does setting known
          (.each ((setting.project.rootfs path).inits.tail.map fun place =>
            .ofOption (LinkTree.makeDirectory setting.env.directoryMode place))) true
          (makeEffects setting.env.directoryMode path) (path.inits ++ known) := by
        rw [inits_tail_rootfs, List.map_append, List.map_map]
        have inProject : ∀ place ∈ setting.project.path.inits.tail,
            place <+: setting.project.path :=
          fun place member => (mem_inits_tail.mp member).1
        exact does_each_append (does_makeProjects inProject _)
          (does_makePath (makes path (by simp)) _)
      rw [List.map_cons, List.flatMap_cons, List.flatMap_cons, List.flatMap_cons,
        List.map_append]
      apply does_each_append first
      apply (ih fun other member => makes other (by simp [member])).mono (fun _ known => known)
      intro other member
      simp only [List.mem_append] at member ⊢
      tauto

theorem settles_mkdir {region : Path → Prop} {paths : List Path}
    (makes : ∀ path ∈ paths, Makes path)
    (apart : ∀ path ∈ paths, ∀ above ∈ path.inits, ¬ region above) :
    Settles setting region known (.run (mkdir setting.project setting.env paths)) true
      (paths.flatMap List.inits ++ known) := by
  refine ⟨_, ?_, acts_run (does_mkdir makes)⟩
  intro effect member
  obtain ⟨path, given, inEffects⟩ := List.mem_flatMap.mp member
  obtain ⟨above, onTheWay, rfl⟩ := List.mem_map.mp inEffects
  have made := (makes path given).2 above onTheWay
  constructor
  · apply (neat_create made.slot).tidy_single
    rw [made.style]
    exact .inr (.inr ⟨_, fun _ _ => rfl⟩)
  · intro other inRegion
    exact Effect.single_apart (apart path given above onTheWay) inRegion

/-! ## Replacing a node -/

theorem neat_replace {new : Node String} (admits : (slot setting path).Admits (some new)) :
    Neat setting (Effect.single path (Change.replace new)) :=
  neat_single (fun _ _ => admits) (Change.keeps_replace new)

theorem tidy_replace {new : Node String} (admits : (slot setting path).Admits (some new)) :
    Tidy setting (Effect.single path (Change.replace new)) :=
  (neat_replace admits).tidy_single (.inl fun _ _ _ _ => rfl)

/-- `chmod 1777` of a directory that is there. -/
theorem does_openDirectory (directory : slot setting path = .directory)
    (placed : Placed setting known path) (present : path ∈ known) (mode : Nat) :
    Does setting known
      (.ofOption (LinkTree.chmod (fun _ => mode) (setting.project.rootfs path))) sure
      [Effect.single path (Change.replace (.directory mode))] known := by
  apply does_neat
  · apply neat_replace
    rw [directory]
    rintro node ⟨⟩
    rfl
  · intro tree ready
    have above := placed.above ready
    obtain ⟨old, there⟩ :=
      LinkTree.holdsDirectory_iff.mp (ready.holdsDirectory present directory)
    obtain ⟨next, set⟩ : ∃ next,
        tree.set (setting.project.rootfs path) (.directory mode) = some next :=
      LinkTree.exists_set (by simp [Project.rootfs]) above (fun _ => rfl)
    refine ⟨next, ?_, acted_of_set set rfl⟩
    rw [LinkTree.chmod_here (plain_rootfs placed.plain) (by simp [Project.rootfs]) above _ there
      rfl]
    exact set

/-! ## Files -/

/-- A path at which there is a regular file or nothing. -/
structure FilePath (setting : Setting) (known : List Path) (path : Path) : Prop
    extends Placed setting known path where
  file : slot setting path = .file ∨ slot setting path = .library

namespace FilePath

variable {tree : Host} (filePath : FilePath setting known path)
  (ready : Ready setting known tree)

include filePath ready

theorem holdsLink : tree.holdsLink (setting.project.rootfs path) = false := by
  rcases ready.fit.file_cases filePath.file with missing | ⟨content, mode, there⟩
  · simp [LinkTree.holdsLink, missing]
  · simp [LinkTree.holdsLink, there, Node.isLink]

theorem isDirectory : tree.isDirectory (setting.project.rootfs path) = false := by
  rw [LinkTree.isDirectory, LinkTree.resolve_here (plain_rootfs filePath.plain)
    (by simp [Project.rootfs]) (filePath.above ready) (filePath.holdsLink ready),
    Option.any_some]
  rcases ready.fit.file_cases filePath.file with missing | ⟨content, mode, there⟩
  · simp [LinkTree.holdsDirectory, missing]
  · simp [LinkTree.holdsDirectory, there, Node.isDirectory]

theorem exists_set (content : String) (mode : Nat) :
    ∃ next, tree.set (setting.project.rootfs path) (.file content mode) = some next := by
  apply LinkTree.exists_set (by simp [Project.rootfs]) (filePath.above ready)
  intro directory
  rcases ready.fit.file_cases filePath.file with missing | ⟨old, kept, there⟩
  · simp [LinkTree.holdsDirectory, missing] at directory
  · simp [LinkTree.holdsDirectory, there, Node.isDirectory] at directory

theorem overwrite (content : String) (mode : Nat) :
    ∃ next, tree.overwrite content mode (setting.project.rootfs path) = some next ∧
      Acted setting.project (Effect.all [Effect.single path (Change.put content mode id)])
        tree next := by
  have plain : ∀ name ∈ setting.project.rootfs path, LinkTree.Plain name :=
    plain_rootfs filePath.plain
  have proper : setting.project.rootfs path ≠ [] := by simp [Project.rootfs]
  have above := filePath.above ready
  rw [LinkTree.overwrite_here plain proper above content mode (filePath.holdsLink ready)]
  rcases ready.fit.file_cases filePath.file with missing | ⟨old, kept, there⟩
  · obtain ⟨next, set⟩ := filePath.exists_set ready content mode
    refine ⟨next, ?_, acted_of_set set (by rw [missing]; rfl)⟩
    rw [LinkTree.writeFile_missing plain proper above content mode missing, set]
  · obtain ⟨next, set⟩ := filePath.exists_set ready content kept
    refine ⟨next, ?_, acted_of_set set (by rw [there]; rfl)⟩
    rw [LinkTree.writeFile_file plain proper above content mode there, set]

end FilePath

end Steps

end AqjOs.Rootfs
