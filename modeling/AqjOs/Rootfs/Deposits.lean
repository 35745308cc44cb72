import AqjOs.Rootfs.Steps

/-!
# Copied files and their modes

The script copies files and then makes some of them executable.  Taken together
the two steps are one change of each path, a deposit, which can be repeated: the
copy keeps the mode of a file that is there, and `chmod +x` adds nothing the
second time.
-/

namespace AqjOs.Rootfs

open AqjOs.Files AqjOs.Shell AqjOs.Shell.Script

/-- What copying a node to a path does there. -/
def copied : Node String → Change String
  | .directory mode => .create (.directory mode)
  | .file content mode => .put content mode id
  | .link target => .replace (.link target)

/-- Nodes that are copied one after another. -/
def copyEffects (entries : List (Path × Node String)) : List Effect :=
  entries.map fun entry => Effect.single entry.1 (copied entry.2)

/-- Files whose mode is changed one after another. -/
def markEffects (bits : Nat → Nat) (paths : List Path) : List Effect :=
  paths.map fun path => Effect.single path (Change.chmod bits)

/-- Files and directories that are copied, and the marked ones of the files made
executable. -/
def deposit (bits : Nat → Nat) (entries : List (Path × Node String)) (marked : Path → Bool) :
    Effect :=
  fun path =>
    match entries.lookup path with
    | some (.directory mode) => .create (.directory mode)
    | some (.file content mode) => .put content mode (if marked path then bits else id)
    | _ => if marked path then .chmod bits else id

theorem mem_of_lookup {α : Type} {entries : List (Path × α)} {path : Path} {value : α}
    (found : entries.lookup path = some value) : (path, value) ∈ entries := by
  obtain ⟨early, late, rfl, _⟩ := List.lookup_eq_some_iff.mp found
  simp

theorem lookup_of_mem {α : Type} {entries : List (Path × α)} {path : Path} {value : α}
    (distinct : (entries.map Prod.fst).Nodup) (member : (path, value) ∈ entries) :
    entries.lookup path = some value := by
  induction entries with
  | nil => cases member
  | cons entry entries ih =>
      obtain ⟨apart, distinctRest⟩ := List.nodup_cons.mp distinct
      rcases List.mem_cons.mp member with rfl | later
      · exact List.lookup_cons_self
      · have different : (path == entry.1) = false := by
          rw [beq_eq_false_iff_ne]
          rintro rfl
          exact apart (List.mem_map.mpr ⟨_, later, rfl⟩)
        rw [List.lookup_cons, different]
        exact ih distinctRest later

theorem lookup_eq_none {α : Type} {entries : List (Path × α)} {path : Path}
    (absent : path ∉ entries.map Prod.fst) : entries.lookup path = none := by
  rw [List.lookup_eq_none_iff]
  intro entry member
  rw [bne_iff_ne]
  rintro rfl
  exact absent (List.mem_map.mpr ⟨entry, member, rfl⟩)

theorem lookup_ne_none {α : Type} {entries : List (Path × α)} {path : Path} {value : α}
    (member : (path, value) ∈ entries) : entries.lookup path ≠ none := by
  intro absent
  have different := List.lookup_eq_none_iff.mp absent _ member
  simp at different

/-! ## One change for two commands -/

theorem all_copyEffects {entries : List (Path × Node String)}
    (distinct : (entries.map Prod.fst).Nodup) (path : Path) (node : Option (Node String)) :
    Effect.all (copyEffects entries) path node =
      match entries.lookup path with
      | some new => copied new node
      | none => node := by
  induction entries generalizing node with
  | nil => rfl
  | cons entry entries ih =>
      obtain ⟨place, new⟩ := entry
      obtain ⟨apart, distinctRest⟩ := List.nodup_cons.mp distinct
      rw [copyEffects, List.map_cons, Effect.all_cons]
      by_cases here : path = place
      · subst here
        have later : entries.lookup path = none := lookup_eq_none apart
        have rest := ih distinctRest (copied new node)
        rw [later] at rest
        simp only [Effect.single, if_true, List.lookup_cons_self]
        exact rest
      · have rest := ih distinctRest node
        have different : (path == place) = false := by simpa using here
        rw [List.lookup_cons, different, Effect.single, if_neg here]
        exact rest

theorem all_markEffects {bits : Nat → Nat} {paths : List Path} (distinct : paths.Nodup)
    (path : Path) (node : Option (Node String)) :
    Effect.all (markEffects bits paths) path node =
      if path ∈ paths then Change.chmod bits node else node := by
  induction paths generalizing node with
  | nil => rfl
  | cons place paths ih =>
      obtain ⟨apart, distinctRest⟩ := List.nodup_cons.mp distinct
      rw [markEffects, List.map_cons, Effect.all_cons, ← markEffects, ih distinctRest]
      by_cases here : path = place
      · subst here
        simp [Effect.single, apart]
      · simp [Effect.single, here]

section Deposit

variable {setting : Setting} {bits : Nat → Nat} {entries : List (Path × Node String)}
  {marked : Path → Bool}

/-- Copying and then changing modes is a deposit. -/
theorem all_deposit {marks : List Effect} (distinct : (entries.map Prod.fst).Nodup)
    (linkless : Linkless entries)
    (directories : ∀ path mode, entries.lookup path = some (.directory mode) →
      slot setting path = .directory)
    (marking : ∀ path node, Effect.all marks path node =
      if marked path then Change.chmod bits node else node)
    {path : Path} {node : Option (Node String)} (possible : (slot setting path).Admits node) :
    Effect.all (copyEffects entries ++ marks) path node =
      Effect.all [deposit bits entries marked] path node := by
  rw [Effect.all_append, all_copyEffects distinct, marking, Effect.all_cons, Effect.all_nil,
    deposit]
  rcases found : entries.lookup path with _ | (mode | ⟨content, mode⟩ | target)
  · cases marked path <;> rfl
  · rw [directories path mode found] at possible
    have untouched : Change.chmod bits (Change.create (.directory mode) node) =
        Change.create (.directory mode) node := by
      rcases node with _ | (kept | ⟨old, kept⟩ | target)
      · rfl
      · rfl
      · have impossible := possible _ rfl
        contradiction
      · rfl
    simp only [copied, untouched, ite_self]
  · rcases node with _ | (kept | ⟨old, kept⟩ | target) <;> cases marked path <;> rfl
  · have member := mem_of_lookup found
    have impossible := linkless _ member
    contradiction

/-- What is deposited suits the slots and the styles. -/
structure Deposit (setting : Setting) (entries : List (Path × Node String))
    (marked : Path → Bool) : Prop where
  linkless : Linkless entries
  directories : ∀ path mode, entries.lookup path = some (.directory mode) →
    slot setting path = .directory ∧ style setting.env path = .made
  files : ∀ path content mode, entries.lookup path = some (.file content mode) →
    slot setting path = .file ∧
      style setting.env path = .text content (· ||| setting.env.executeBits)
  modes : ∀ path, entries.lookup path = none → marked path = true →
    (slot setting path).Executable ∧
      style setting.env path = .mode (· ||| setting.env.executeBits)

theorem Deposit.neat (deposits : Deposit setting entries marked) :
    Neat setting (deposit (· ||| setting.env.executeBits) entries marked) := by
  constructor
  · intro path node possible
    rw [deposit]
    rcases found : entries.lookup path with _ | (mode | ⟨content, mode⟩ | target)
    · cases mark : marked path with
      | false => exact possible
      | true => exact Slot.admits_chmod (deposits.modes path found mark).1 possible _
    · rw [(deposits.directories path mode found).1] at possible ⊢
      exact Slot.admits_create possible mode
    · rw [(deposits.files path content mode found).1] at possible ⊢
      exact Slot.admits_put possible content mode _
    · have impossible := deposits.linkless _ (mem_of_lookup found)
      contradiction
  · intro path
    rw [deposit]
    rcases entries.lookup path with _ | (mode | ⟨content, mode⟩ | target)
    · cases marked path with
      | false => exact Change.keeps_id
      | true => exact Change.keeps_chmod _
    · exact Change.keeps_create _
    · exact Change.keeps_put _ _ _
    · cases marked path with
      | false => exact Change.keeps_id
      | true => exact Change.keeps_chmod _

theorem Deposit.tidy (deposits : Deposit setting entries marked) :
    Tidy setting (deposit (· ||| setting.env.executeBits) entries marked) := by
  refine ⟨deposits.neat, ?_⟩
  intro path
  right
  rw [deposit]
  rcases found : entries.lookup path with _ | (mode | ⟨content, mode⟩ | target)
  · cases mark : marked path with
    | false => exact .inl fun _ _ => rfl
    | true =>
        rw [(deposits.modes path found mark).2]
        exact .inr fun _ _ => rfl
  · rw [(deposits.directories path mode found).2]
    exact .inr ⟨.directory mode, fun _ _ => rfl⟩
  · rw [(deposits.files path content mode found).2]
    right
    cases marked path with
    | false => exact ⟨mode, id, .inl rfl, fun _ _ => rfl⟩
    | true => exact ⟨mode, _, .inr rfl, fun _ _ => rfl⟩
  · have impossible := deposits.linkless _ (mem_of_lookup found)
    contradiction

/-- Copies and changes of mode settle together. -/
theorem Deposit.settles {region : Path → Prop} {before after : List Path} {script : Script Host}
    {marks : List Effect} (deposits : Deposit setting entries marked)
    (distinct : (entries.map Prod.fst).Nodup)
    (marking : ∀ path node, Effect.all marks path node =
      if marked path then Change.chmod (· ||| setting.env.executeBits) node else node)
    (apart : ∀ path, region path → entries.lookup path = none ∧ marked path = false)
    (acts : Acts setting before script (copyEffects entries ++ marks) true after) :
    Settles setting region before script true after := by
  refine ⟨[deposit (· ||| setting.env.executeBits) entries marked], ?_, ?_⟩
  · intro effect member
    obtain rfl := List.mem_singleton.mp member
    refine ⟨deposits.tidy, ?_⟩
    intro path inRegion
    obtain ⟨absent, unmarked⟩ := apart path inRegion
    rw [deposit, absent, unmarked]
    rfl
  · apply acts.congr
    intro path node possible
    apply all_deposit distinct deposits.linkless _ marking possible
    intro path mode found
    exact (deposits.directories path mode found).1

end Deposit

/-! ## The commands of a deposit -/

section Commands

variable {setting : Setting} {known : List Path} {path : Path} {sure : Bool}

/-- A project file as a node of the tree. -/
def Source.node (source : Source) : Node String :=
  .file source.content source.mode

theorem neat_put (file : slot setting path = .file) (content : String) (mode : Nat) :
    Neat setting (Effect.single path (Change.put content mode id)) := by
  apply neat_single
  · rw [file]
    exact fun _ possible => Slot.admits_put possible content mode id
  · exact Change.keeps_put _ _ _

/-- A command that writes a file at its path. -/
theorem does_overwrite (placed : Placed setting known path) (file : slot setting path = .file)
    (source : Source) {action : Host → Option Host}
    (writes : ∀ tree, Ready setting known tree → action tree =
      tree.overwrite source.content source.mode (setting.project.rootfs path)) :
    Does setting known (.ofOption action) sure (copyEffects [(path, source.node)])
      (path :: known) := by
  have filePath : FilePath setting known path := ⟨placed, .inl file⟩
  apply does_ofOption
  intro tree ready
  obtain ⟨next, result, acted⟩ := filePath.overwrite ready source.content source.mode
  refine ⟨next, (writes tree ready).trans result, acted, ?_⟩
  apply (ready.acted (neat_put file _ _) acted).cons
  rw [acted.inside, Effect.all_cons, Effect.all_nil, Effect.single, if_pos rfl]
  rcases tree.node (setting.project.rootfs path) with _ | (kept | ⟨old, kept⟩ | target)
  · exact Option.some_ne_none _
  · exact Option.some_ne_none _
  · exact Option.some_ne_none _
  · exact Option.some_ne_none _

theorem does_copyFile (placed : Placed setting known path) (file : slot setting path = .file)
    (source : Source) (name : String) :
    Does setting known (copyFile setting.project source name path) sure
      (copyEffects [(path, source.node)]) (path :: known) := by
  apply does_overwrite placed file
  intro tree ready
  have filePath : FilePath setting known path := ⟨placed, .inl file⟩
  rw [LinkTree.copyTo, filePath.isDirectory ready]
  rfl

theorem does_copyInto {name : String} (placed : Placed setting known (path ++ [name]))
    (file : slot setting (path ++ [name]) = .file) (source : Source) :
    Does setting known (.ofOption (LinkTree.copyInto source.content source.mode name
        (setting.project.rootfs path))) sure
      (copyEffects [(path ++ [name], source.node)]) ((path ++ [name]) :: known) := by
  apply does_overwrite placed file
  intro tree ready
  have above := placed.above ready
  rw [← rootfs_append, List.dropLast_concat] at above
  have plain : ∀ other ∈ path, LinkTree.Plain other :=
    fun other member => placed.plain other (by simp [member])
  rw [LinkTree.copyInto, if_pos (LinkTree.isDirectory_of_holdsDirectory (plain_rootfs plain) above),
    rootfs_append]

theorem neat_chmod (file : slot setting path = .file) (change : Nat → Nat) :
    Neat setting (Effect.single path (Change.chmod change)) :=
  neat_single (fun _ possible => Slot.admits_chmod (.inr (.inl file)) possible change)
    (Change.keeps_chmod change)

/-- `chmod` of one file, which fails if the file is missing. -/
theorem does_chmodFile (placed : Placed setting known path) (file : slot setting path = .file)
    (present : sure = true → path ∈ known) (change : Nat → Nat) :
    Does setting known (.ofOption (LinkTree.chmod change (setting.project.rootfs path))) sure
      (markEffects change [path]) known := by
  intro tree ready
  have neat : Neat setting (Effect.single path (Change.chmod change)) :=
    neat_chmod file change
  have filePath : FilePath setting known path := ⟨placed, .inl file⟩
  have plain : ∀ name ∈ setting.project.rootfs path, LinkTree.Plain name :=
    plain_rootfs placed.plain
  have proper : setting.project.rootfs path ≠ [] := by simp [Project.rootfs]
  have above := placed.above ready
  rcases ready.fit.file_cases (.inl file) with missing | ⟨content, mode, there⟩
  · have fails : tree.chmod change (setting.project.rootfs path) = none := by
      rw [LinkTree.chmod, LinkTree.resolve_here plain proper above (filePath.holdsLink ready),
        Option.bind_some, missing]
      rfl
    have ended : Command.ofOption (LinkTree.chmod change (setting.project.rootfs path)) tree =
        (.failure, tree) := by
      simp only [Command.ofOption, fails]
    have acted : Acted setting.project (Effect.all (markEffects change [path])) tree tree := by
      apply acted_of_fixed
      rw [missing]
      rfl
    rw [ended]
    refine ⟨by simp, ?_, acted, ready⟩
    intro certain
    exact absurd missing (ready.present path (present certain))
  · obtain ⟨next, set⟩ := filePath.exists_set ready content (change mode)
    have succeeds : tree.chmod change (setting.project.rootfs path) = some next := by
      rw [LinkTree.chmod_here plain proper above change there rfl]
      exact set
    have ended : Command.ofOption (LinkTree.chmod change (setting.project.rootfs path)) tree =
        (.success, next) := by
      simp only [Command.ofOption, succeeds]
    have acted : Acted setting.project (Effect.all (markEffects change [path])) tree next := by
      apply acted_of_set set
      rw [there]
      rfl
    rw [ended]
    exact ⟨by simp, fun _ => rfl, acted, ready.acted neat acted⟩

theorem does_chmodExecutable {paths : List Path}
    (files : ∀ path ∈ paths, Placed setting known path ∧ slot setting path = .file)
    (present : sure = true → ∀ path ∈ paths, path ∈ known) :
    Does setting known (chmodExecutable setting.project setting.env paths) sure
      (markEffects (· ||| setting.env.executeBits) paths) known := by
  unfold chmodExecutable LinkTree.chmods
  induction paths with
  | nil => exact does_each_nil
  | cons path paths ih =>
      obtain ⟨placed, file⟩ := files path (by simp)
      have first : Does setting known (.ofOption (LinkTree.chmod (· ||| setting.env.executeBits)
          (setting.project.rootfs path))) sure
          (markEffects (· ||| setting.env.executeBits) [path]) known :=
        does_chmodFile placed file (fun certain => present certain path (by simp)) _
      exact does_each_cons first (ih (fun other member => files other (by simp [member]))
        fun certain other member => present certain other (by simp [member]))

end Commands

end AqjOs.Rootfs
