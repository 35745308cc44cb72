import AqjOs.Rootfs.Layout

/-!
# Commands in a tame tree

In a tame tree the commands of the script write where their operands say, inside
the rootfs.  The one exception is `ln -sf` onto a link that an earlier run has
left: it follows that link, and an absolute one leads to the build host.
-/

namespace AqjOs.Rootfs

open AqjOs.Files AqjOs.Shell

/-- The two trees differ inside the project only. -/
def AgreeOutside (project : Project) (before after : Host) : Prop :=
  ∀ path, ¬ project.path <+: path → after.node path = before.node path

theorem AgreeOutside.trans {project : Project} {first second third : Host}
    (early : AgreeOutside project first second) (late : AgreeOutside project second third) :
    AgreeOutside project first third :=
  fun path outside => (late path outside).trans (early path outside)

/-! ## Commands that stay inside -/

/-- A node, but no link, at a path of the rootfs whose role it fits. -/
def Inside (project : Project) (place : Path) (node : Node String) : Prop :=
  ∃ path, place = project.rootfs path ∧ (role path).Fits node ∧ node.isLink = false

/-- In a tame tree the command writes inside the rootfs only, and no link. -/
def Confined (project : Project) (command : Command Host) : Prop :=
  ∀ tree, Tame project tree → LinkTree.Writes (Inside project) tree (command tree).2

section Confined

variable {project : Project}

theorem Tame.of_writes {tree next : Host} (tame : Tame project tree)
    (writes : LinkTree.Writes
      (fun place node => ∃ path, place = project.rootfs path ∧ (role path).Fits node)
      tree next) : Tame project next := by
  constructor
  · rcases writes project.path with same | ⟨node, _, path, here, _⟩
    · unfold LinkTree.holdsDirectory
      rw [same]
      exact tame.reached
    · exact absurd here (rootfs_ne_project path)
  · intro path node there
    rcases writes (project.rootfs path) with same | ⟨new, placed, other, here, fits⟩
    · rw [same] at there
      exact tame.fits path node there
    · rw [rootfs_inj] at here
      rw [placed] at there
      rw [here, ← Option.some.inj there]
      exact fits

/-- What fits its role takes nothing of glibc away. -/
theorem GlibcInstalled.of_writes {tree next : Host} (installed : GlibcInstalled project tree)
    (writes : LinkTree.Writes
      (fun place node => ∃ path, place = project.rootfs path ∧ (role path).Fits node)
      tree next) : GlibcInstalled project next := by
  constructor
  · rcases writes project.packagesBuildDir with same | ⟨node, _, path, here, _⟩
    · unfold LinkTree.holdsDirectory
      rw [same]
      exact installed.workshop
    · simp [Project.packagesBuildDir, Project.rootfs] at here
  · intro path listed
    rcases writes (project.rootfs path) with same | ⟨node, placed, other, here, fits⟩
    · rw [same]
      exact installed.files path listed
    · rw [rootfs_inj] at here
      subst here
      have isFile : ∀ path ∈ glibcFiles, role path = .file := by decide
      rw [isFile path listed] at fits
      obtain ⟨notDirectory, notLink⟩ := fits
      cases node with
      | directory mode => contradiction
      | file content mode => exact ⟨content, mode, placed⟩
      | link target => contradiction

theorem Tame.of_inside {tree next : Host} (tame : Tame project tree)
    (writes : LinkTree.Writes (Inside project) tree next) : Tame project next := by
  apply tame.of_writes
  apply writes.mono
  rintro place node ⟨path, here, fits, _⟩
  exact ⟨path, here, fits⟩

theorem confined_ofOption {effect : Host → Option Host}
    (writes : ∀ tree next, Tame project tree → effect tree = some next →
      LinkTree.Writes (Inside project) tree next) : Confined project (.ofOption effect) := by
  intro tree tame
  apply Command.ofOption_snd (fun next => LinkTree.Writes (Inside project) tree next)
  · exact LinkTree.Writes.refl tree
  · intro next defined
    exact writes tree next tame defined

theorem confined_each {commands : List (Command Host)}
    (confined : ∀ command ∈ commands, Confined project command) :
    Confined project (.each commands) := by
  intro tree tame
  apply Command.each_snd fun next => LinkTree.Writes (Inside project) tree next
  · intro command member state writes
    exact writes.trans (confined command member state (tame.of_inside writes))
  · exact LinkTree.Writes.refl tree

/-- A path that `mkdir -p` may make: below it only the last name may be free. -/
def Makeable (path : Path) : Prop :=
  (∀ name ∈ path, LinkTree.Plain name) ∧
    ∀ above ∈ path.inits, role above = .directory ∨ above = path ∧ role above = .free

instance (path : Path) : Decidable (Makeable path) :=
  inferInstanceAs (Decidable (_ ∧ _))

theorem Makeable.direct_dropLast {path above : Path} (makeable : Makeable path)
    (under : above <+: path) (proper : above ≠ []) : Direct above.dropLast := by
  constructor
  · intro name member
    exact makeable.1 name (under.subset (List.mem_of_mem_dropLast member))
  · intro other member
    have below := (List.mem_inits _ _).mp member
    have short : other ≠ path := by
      rintro rfl
      have lengths := below.length_le
      have longest := under.length_le
      rw [List.length_dropLast] at lengths
      have positive := List.length_pos_iff.mpr proper
      omega
    rcases makeable.2 other ((List.mem_inits _ _).mpr
        (below.trans ((List.dropLast_prefix above).trans under))) with directory | ⟨same, _⟩
    · rw [directory]
      rfl
    · exact absurd same short

theorem confined_makeDirectory (mode : Nat) {path above : Path} (makeable : Makeable path)
    (under : above <+: project.rootfs path) (proper : above ≠ []) :
    Confined project (.ofOption (LinkTree.makeDirectory mode above)) := by
  apply confined_ofOption
  intro tree next tame made
  rcases prefix_rootfs under with within | ⟨between, below, rfl⟩
  · have directory : tree.holdsDirectory above = true := by
      obtain ⟨rest, whole⟩ := within
      exact LinkTree.holdsDirectory_of_append (by rw [whole]; exact tame.reached)
    have real := LinkTree.isDirectory_of_holdsDirectory
      (fun name member => project.plain name (within.subset member)) directory
    rw [LinkTree.makeDirectory, if_pos real] at made
    cases made
    exact LinkTree.Writes.refl tree
  · apply (LinkTree.writes_makeDirectory made).mono
    rintro place node ⟨located, rfl⟩
    have straight : tree.Straight (project.rootfs between).dropLast := by
      by_cases root : between = []
      · subst root
        have parent : (project.rootfs []).dropLast = project.path := by simp [Project.rootfs]
        rw [parent]
        exact LinkTree.straight_of_holdsDirectory project.plain tame.reached
      · exact tame.straight_parent root (makeable.direct_dropLast below root)
    refine ⟨between, straight.locate_eq located, ?_, rfl⟩
    rcases makeable.2 between ((List.mem_inits _ _).mpr below) with directory | ⟨_, free⟩
    · rw [directory]
      rfl
    · rw [free]
      trivial

theorem confined_mkdirs (mode : Nat) {paths : List Path}
    (makeable : ∀ path ∈ paths, Makeable path) :
    Confined project (LinkTree.mkdirs mode (paths.map project.rootfs)) := by
  apply confined_each
  intro command member
  obtain ⟨above, listed, rfl⟩ := List.mem_map.mp member
  obtain ⟨whole, inPaths, above_mem⟩ := List.mem_flatMap.mp listed
  obtain ⟨path, given, rfl⟩ := List.mem_map.mp inPaths
  obtain ⟨under, proper⟩ := mem_inits_tail.mp above_mem
  exact confined_makeDirectory mode (makeable path given) under proper

theorem confined_chmods (change : Nat → Nat) {paths : List Path}
    (direct : ∀ path ∈ paths, Direct path) :
    Confined project (LinkTree.chmods change (paths.map project.rootfs)) := by
  apply confined_each
  intro command member
  obtain ⟨whole, listed, rfl⟩ := List.mem_map.mp member
  obtain ⟨path, given, rfl⟩ := List.mem_map.mp listed
  apply confined_ofOption
  intro tree next tame changed
  apply (LinkTree.writes_chmod changed).mono
  rintro place node ⟨resolved, old, there, rfl⟩
  have here := (tame.straight (direct path given)).resolve_eq resolved
  rw [here] at there
  have fits := tame.fits path old there
  have unlinked := (direct path given).2 path (by simp)
  refine ⟨path, here, fits.withMode change, ?_⟩
  rw [Node.isLink_withMode]
  exact fits.isLink unlinked

/-- A file may be written to a direct path. -/
theorem inside_file {tree : Host} (tame : Tame project tree) {path place : Path}
    (direct : Direct path) (fits : ∀ content mode, (role path).Fits (.file content mode))
    (resolved : tree.resolve (project.rootfs path) = some place) (content : String)
    (mode : Nat) : Inside project place (.file content mode) :=
  ⟨path, (tame.straight direct).resolve_eq resolved, fits content mode, rfl⟩

/-- A path at which the script writes a file. -/
def Writable (path : Path) : Prop :=
  Direct path ∧ role path = .file

instance (path : Path) : Decidable (Writable path) :=
  inferInstanceAs (Decidable (_ ∧ _))

theorem Writable.fits {path : Path} (writable : Writable path) (content : String) (mode : Nat) :
    (role path).Fits (.file content mode) := by
  rw [writable.2]
  exact ⟨rfl, rfl⟩

theorem Writable.writes_writeFile {path : Path} (writable : Writable path) {content : String}
    {mode : Nat} {tree next : Host} (tame : Tame project tree)
    (written : tree.writeFile content mode (project.rootfs path) = some next) :
    LinkTree.Writes (Inside project) tree next := by
  apply (LinkTree.writes_writeFile written).mono
  rintro place node ⟨resolved, kept, rfl⟩
  exact inside_file tame writable.1 writable.fits resolved content kept

theorem Writable.writes_overwrite {path : Path} (writable : Writable path) {content : String}
    {mode : Nat} {tree next : Host} (tame : Tame project tree)
    (written : tree.overwrite content mode (project.rootfs path) = some next) :
    LinkTree.Writes (Inside project) tree next := by
  apply (LinkTree.writes_overwrite written).mono
  rintro place node ⟨resolved, kept, rfl⟩
  exact inside_file tame writable.1 writable.fits resolved content kept

theorem Writable.isDirectory {path : Path} (writable : Writable path) {tree : Host}
    (tame : Tame project tree) : tree.isDirectory (project.rootfs path) = false := by
  rw [(tame.straight writable.1).isDirectory_eq, Bool.eq_false_iff]
  intro directory
  obtain ⟨mode, there⟩ := LinkTree.holdsDirectory_iff.mp directory
  have fits := tame.fits path _ there
  rw [writable.2] at fits
  exact absurd fits.1 (by simp [Node.isDirectory])

theorem confined_copyFile {path : Path} (writable : Writable path) (source : Source)
    (name : String) : Confined project (copyFile project source name path) := by
  apply confined_ofOption
  intro tree next tame copied
  rw [LinkTree.copyTo, writable.isDirectory tame] at copied
  exact writable.writes_overwrite tame copied

theorem confined_copyInto {path : Path} {name : String} (writable : Writable (path ++ [name]))
    (source : Source) :
    Confined project (.ofOption (LinkTree.copyInto source.content source.mode name
      (project.rootfs path))) := by
  apply confined_ofOption
  intro tree next tame copied
  unfold LinkTree.copyInto at copied
  split at copied
  · rw [rootfs_append] at copied
    exact writable.writes_overwrite tame copied
  · contradiction

theorem confined_writeFile {path : Path} (writable : Writable path) (content : String)
    (mode : Nat) :
    Confined project (.ofOption (LinkTree.writeFile content mode (project.rootfs path))) :=
  confined_ofOption fun _ _ tame written => writable.writes_writeFile tame written

theorem confined_editInPlace (edit : String → String) {path : Path} (proper : path ≠ [])
    (direct : Direct path.dropLast) (free : role path = .free) :
    Confined project (.ofOption (LinkTree.editInPlace edit (project.rootfs path))) := by
  apply confined_ofOption
  intro tree next tame edited
  apply (LinkTree.writes_editInPlace edited).mono
  rintro place node ⟨located, content, mode, rfl⟩
  refine ⟨path, (tame.straight_parent proper direct).locate_eq located, ?_, rfl⟩
  rw [free]
  trivial

theorem confined_chmodFound (name : String) (change : Nat → Nat) :
    Confined project (.ofOption (LinkTree.chmodFound name change
      (project.rootfs ["etc", "sv"]))) := by
  apply confined_ofOption
  intro tree next tame changed
  apply (LinkTree.writes_chmodFound changed).mono
  rintro place node ⟨⟨start, located, rest, rfl⟩, old, there, rfl⟩
  have here := (tame.straight_parent (by simp) (by decide)).locate_eq located
  rw [here, rootfs_append] at there
  have fits := tame.fits _ old there
  refine ⟨["etc", "sv"] ++ rest, by rw [here, rootfs_append], fits.withFileMode change, ?_⟩
  have notLink := fits.isLink (unlinked_service rest)
  cases old <;> simp_all [Node.withFileMode, Node.isLink]

/-- Services that can be copied: each has a name, and none is a link. -/
def Linkless (entries : List (Path × Node String)) : Prop :=
  ∀ entry ∈ entries, entry.2.isLink = false

instance (entries : List (Path × Node String)) : Decidable (Linkless entries) :=
  inferInstanceAs (Decidable (∀ entry ∈ entries, _))

theorem confined_copyTree {entries : List (Path × Node String)}
    (proper : ∀ entry ∈ entries, entry.1 ≠ [] ∧ ∀ name ∈ entry.1, LinkTree.Plain name)
    (linkless : Linkless entries) :
    Confined project (LinkTree.copyTree entries (project.rootfs ["etc", "sv"])) := by
  intro tree tame
  unfold LinkTree.copyTree
  split
  · rename_i base found
    obtain ⟨resolved, _⟩ := Option.filter_eq_some_iff.mp found
    have here := (tame.straight (by decide)).resolve_eq resolved
    subst here
    refine confined_each ?_ tree tame
    intro command member
    obtain ⟨⟨path, source⟩, listed, rfl⟩ := List.mem_map.mp member
    obtain ⟨nonempty, plain⟩ := proper _ listed
    obtain ⟨name, rest, rfl⟩ := List.exists_cons_of_ne_nil nonempty
    apply confined_ofOption
    intro tree next tame copied
    apply (LinkTree.writes_copyEntry copied).mono
    rintro place node ⟨_, ⟨rfl, rfl⟩ | ⟨resolved, content, kept, mode, _, rfl⟩⟩
    · refine ⟨"etc" :: "sv" :: name :: rest, by rw [rootfs_append]; rfl, ?_, linkless _ listed⟩
      rw [role_service]
      exact linkless _ listed
    · rw [rootfs_append] at resolved
      apply inside_file tame (direct_service plain) _ resolved
      intro content mode
      rw [role_service]
      rfl
  · exact LinkTree.Writes.refl tree

end Confined

/-! ## Links -/

/-- Whatever the project holds, the names lead to no directory. -/
def NoHostDirectory (project : Project) (host : Host) (names : Path) : Prop :=
  ∀ tree, AgreeOutside project host tree → tree.isDirectory names = false

/-- If the path of the rootfs is an absolute link, it leads to no directory of
the host. -/
def Harmless (project : Project) (host tree : Host) (path : Path) : Prop :=
  ∀ target, tree.node (project.rootfs path) = some (.link target) → target.absolute = true →
    NoHostDirectory project host target.names

/-- What holds during a run: the tree is tame, the host is as it was, the glibc that
was there still is, and the links that are still to be replaced are harmless. -/
structure Kept (project : Project) (host : Host) (pending : List Path) (tree : Host) :
    Prop where
  tame : Tame project tree
  outside : AgreeOutside project host tree
  installed : GlibcInstalled project host → GlibcInstalled project tree
  harmless : ∀ path ∈ pending, Harmless project host tree path

def defaultDirectory : Path :=
  ["etc", "runit", "runsvdir", "default"]

section Links

variable {project : Project} {host tree : Host} {pending : List Path}

theorem Kept.mono {fewer : List Path} (kept : Kept project host pending tree)
    (subset : fewer ⊆ pending) : Kept project host fewer tree :=
  ⟨kept.tame, kept.outside, kept.installed, fun path member => kept.harmless path (subset member)⟩

theorem Confined.kept {command : Command Host} (confined : Confined project command)
    (kept : Kept project host pending tree) : Kept project host pending (command tree).2 := by
  have writes := confined tree kept.tame
  constructor
  · exact kept.tame.of_inside writes
  · apply kept.outside.trans
    intro path outside
    rcases writes path with same | ⟨node, _, inner, rfl, _⟩
    · exact same
    · exact absurd (project_prefix_rootfs inner) outside
  · intro before
    apply (kept.installed before).of_writes
    apply writes.mono
    rintro place node ⟨inner, here, fits, _⟩
    exact ⟨inner, here, fits⟩
  · intro path member target there absolute
    rcases writes (project.rootfs path) with same | ⟨node, placed, inner, _, _, notLink⟩
    · rw [same] at there
      exact kept.harmless path member target there absolute
    · rw [placed] at there
      rw [Option.some.inj there] at notLink
      contradiction

/-- A relative link with one of the targets, at this path, leads to one of the
given directories or to no directory at all. -/
def Lands (path : Path) (targets : List Target) (ends : List Path) : Prop :=
  ∀ (project : Project) (tree : Host), Tame project tree → ∀ target ∈ targets,
    target.absolute = false → tree.holdsDirectory (project.rootfs path.dropLast) = true →
    ∀ place, tree.walk [] (LinkTree.maxLinks - 1) (project.rootfs path.dropLast) target.names =
      some place → tree.holdsDirectory place = true → ∃ inner ∈ ends, place = project.rootfs inner

/-- A path at which the script makes a link. -/
structure LinkSite (path : Path) (targets : List Target) (ends : List Path) : Prop where
  proper : path ≠ []
  plain : ∀ name ∈ path, LinkTree.Plain name
  direct : Direct path.dropLast
  linked : role path = .link targets
  lands : Lands path targets ends

/-- The paths at which `ln -sf` may put a link that it makes for this path. -/
def linkPlaces (path : Path) (ends : List Path) (target : Target) : List Path :=
  path :: (path :: ends).map (· ++ [target.basename])

/-- Where a path of the layout leads to a directory, the directory is the path
itself or one to which its relative links lead. -/
theorem LinkSite.landing {path place : Path} {targets : List Target} {ends : List Path}
    (site : LinkSite path targets ends) (tame : Tame project tree)
    (outside : AgreeOutside project host tree) (harmless : Harmless project host tree path)
    (resolved : tree.resolve (project.rootfs path) = some place)
    (directory : tree.holdsDirectory place = true) :
    place = project.rootfs path ∨ ∃ inner ∈ ends, place = project.rootfs inner := by
  obtain ⟨above, name, rfl⟩ := List.eq_nil_or_concat' path |>.resolve_left site.proper
  have direct := site.direct
  have lands := site.lands project tree tame
  rw [List.dropLast_concat] at direct lands
  have plain : ∀ other ∈ project.rootfs above ++ [name], LinkTree.Plain other := by
    rw [rootfs_append]
    exact plain_rootfs site.plain
  rw [← rootfs_append] at resolved ⊢
  by_cases linked : tree.holdsLink (project.rootfs above ++ [name]) = true
  · right
    obtain ⟨node, there, isLink⟩ := (Option.any_eq_true _ _).mp linked
    obtain ⟨target, rfl⟩ : ∃ target, node = .link target := by
      cases node <;> simp_all [Node.isLink]
    have parent : tree.holdsDirectory (project.rootfs above) = true := by
      apply LinkTree.holdsDirectory_parent
      rw [there]
      exact Option.some_ne_none _
    have fits := tame.fits (above ++ [name]) (.link target) (by rw [← rootfs_append]; exact there)
    rw [site.linked] at fits
    cases absolute : target.absolute with
    | true =>
        have leads : tree.isDirectory (project.rootfs above ++ [name]) = true := by
          rw [LinkTree.isDirectory, resolved, Option.any_some]
          exact directory
        have onHost := LinkTree.isDirectory_of_absolute_link plain there absolute leads
        rw [rootfs_append] at there
        rw [harmless target there absolute tree outside] at onHost
        contradiction
    | false =>
        rw [LinkTree.resolve_link plain there, absolute] at resolved
        exact lands target (fits target rfl) absolute parent place resolved directory
  · left
    have straight : tree.Straight (project.rootfs above ++ [name]) := by
      have parent := tame.straight direct
      constructor
      · exact plain
      · intro other under
        rcases List.prefix_concat_iff.mp under with rfl | within
        · simpa using linked
        · exact parent.unlinked other within
    exact straight.resolve_eq resolved

theorem LinkSite.locate_linkPath {path place : Path} {targets : List Target} {ends : List Path}
    {target : Target} (site : LinkSite path targets ends) (tame : Tame project tree)
    (outside : AgreeOutside project host tree) (harmless : Harmless project host tree path)
    (located : tree.locate (tree.linkPath target (project.rootfs path)) = some place) :
    ∃ inner ∈ linkPlaces path ends target, place = project.rootfs inner := by
  unfold LinkTree.linkPath at located
  split at located
  · simp only [LinkTree.locate, List.getLast?_concat, Option.bind_some,
      List.dropLast_concat] at located
    obtain ⟨parent, resolved, located⟩ := Option.bind_eq_some_iff.mp located
    split at located
    · rename_i directory
      rw [← Option.some.inj located]
      rcases site.landing tame outside harmless resolved directory with rfl | ⟨inner, member, rfl⟩
      · exact ⟨path ++ [target.basename], by simp [linkPlaces], rootfs_append _ _⟩
      · exact ⟨inner ++ [target.basename], by simp [linkPlaces, member], rootfs_append _ _⟩
    · contradiction
  · exact ⟨path, by simp [linkPlaces],
      (tame.straight_parent site.proper site.direct).locate_eq located⟩

/-- Making a link keeps everything but what was known of its own path. -/
theorem LinkSite.kept {path : Path} {targets : List Target} {ends : List Path}
    {target : Target} (site : LinkSite path targets ends)
    (allowed : ∀ place ∈ linkPlaces path ends target,
      (role place).allows target = true ∧ place ∉ pending)
    (kept : Kept project host (path :: pending) tree) :
    Kept project host pending (link project target path tree).2 := by
  obtain ⟨tame, outside, installed, harmless⟩ := kept
  apply Command.ofOption_snd (Kept project host pending)
  · exact ⟨tame, outside, installed, fun other member => harmless other (by simp [member])⟩
  · intro next linked
    have writes : LinkTree.Writes (fun place node => node = .link target ∧
        ∃ inner ∈ linkPlaces path ends target, place = project.rootfs inner) tree next := by
      apply (LinkTree.writes_symlink linked).mono
      rintro place node ⟨located, rfl⟩
      exact ⟨rfl, site.locate_linkPath tame outside (harmless path (by simp)) located⟩
    have fitting : LinkTree.Writes
        (fun place node => ∃ path, place = project.rootfs path ∧ (role path).Fits node)
        tree next := by
      apply writes.mono
      rintro place node ⟨rfl, inner, member, rfl⟩
      exact ⟨inner, rfl, Role.fits_of_allows (allowed inner member).1⟩
    constructor
    · exact tame.of_writes fitting
    · apply outside.trans
      intro other beyond
      rcases writes other with same | ⟨node, _, _, inner, _, rfl⟩
      · exact same
      · exact absurd (project_prefix_rootfs inner) beyond
    · exact fun before => (installed before).of_writes fitting
    · intro other member found there absolute
      rcases writes (project.rootfs other) with same | ⟨node, _, _, inner, listed, here⟩
      · rw [same] at there
        exact harmless other (by simp [member]) found there absolute
      · rw [rootfs_inj] at here
        subst here
        exact absurd member (allowed other listed).2

theorem lands_of_absolute {path : Path} {targets : List Target}
    (absolute : ∀ target ∈ targets, target.absolute = true) : Lands path targets [] := by
  intro project tree _ target member relative
  rw [absolute target member] at relative
  contradiction

/-- BusyBox is a file of the rootfs, reached from any real directory of it. -/
theorem busybox_not_directory (tame : Tame project tree) :
    tree.holdsDirectory (project.rootfs ["bin", "busybox"]) = false := by
  rw [Bool.eq_false_iff]
  intro directory
  obtain ⟨mode, there⟩ := LinkTree.holdsDirectory_iff.mp directory
  exact absurd (tame.fits _ _ there).1 (by simp [Node.isDirectory])

/-- A walk along names of the layout goes where they say. -/
theorem walk_direct (tame : Tame project tree) {above names place : Path} {links : Nat}
    (direct : Direct (above ++ names))
    (start : tree.holdsDirectory (project.rootfs above) = true)
    (reached : tree.walk [] (links + 1) (project.rootfs above) names = some place) :
    place = project.rootfs (above ++ names) := by
  have straight := tame.straight direct
  rw [← rootfs_append] at straight ⊢
  apply LinkTree.walkWith_straight _ _ start reached
  · intro name member
    exact straight.plain name (by simp [member])
  · intro below under
    exact straight.unlinked _ ((List.prefix_append_right_inj _).mpr under)

theorem lands_current :
    Lands ["etc", "runit", "runsvdir", "current"] [defaultTarget] [defaultDirectory] := by
  intro project tree tame target member _ parent place reached _
  obtain rfl := List.mem_singleton.mp member
  exact ⟨defaultDirectory, by simp, walk_direct tame (by decide) parent reached⟩

theorem lands_shell : Lands ["bin", "sh"] [bashTarget, ⟨false, ["busybox"]⟩] [] := by
  intro project tree tame target member relative parent place reached directory
  rcases List.mem_pair.mp member with rfl | rfl
  · contradiction
  · have here := walk_direct tame (by decide) parent reached
    rw [here] at directory
    exact absurd directory (Bool.eq_false_iff.mp (busybox_not_directory tame))

theorem lands_init : Lands ["sbin", "init"] [initTarget, busyboxTarget] [] := by
  intro project tree tame target member relative parent place reached directory
  rcases List.mem_pair.mp member with rfl | rfl
  · contradiction
  · have top : tree.holdsDirectory (project.rootfs []) = true := by
      have below : tree.holdsDirectory (project.rootfs [] ++ ["sbin"]) = true := by
        rw [rootfs_append]
        exact parent
      exact LinkTree.holdsDirectory_of_append below
    have up : tree.walk [] (LinkTree.maxLinks - 1) (project.rootfs []) ["bin", "busybox"] =
        some place := by
      have above : (project.rootfs ["sbin"]).dropLast = project.rootfs [] :=
        rootfs_dropLast (by simp)
      rw [← above, ← reached]
      exact (LinkTree.walkWith_up (by simp [Project.rootfs]) _).symm
    have here := walk_direct tame (by decide) top up
    rw [here] at directory
    exact absurd directory (Bool.eq_false_iff.mp (busybox_not_directory tame))

end Links

theorem linkSite_service {name : String} (enabled : name ∈ ["getty-tty1", "getty-tty2", "iwd",
    "dhcpcd"]) : LinkSite (enabledPath name) [serviceTarget name] [] := by
  have checked : ∀ name ∈ ["getty-tty1", "getty-tty2", "iwd", "dhcpcd"],
      (∀ part ∈ enabledPath name, LinkTree.Plain part) ∧ Direct (enabledPath name).dropLast ∧
        role (enabledPath name) = .link [serviceTarget name] := by
    decide
  obtain ⟨plain, direct, linked⟩ := checked name enabled
  exact ⟨by simp [enabledPath], plain, direct, linked,
    lands_of_absolute (by simp [serviceTarget])⟩

theorem linkSite_current :
    LinkSite ["etc", "runit", "runsvdir", "current"] [defaultTarget] [defaultDirectory] :=
  ⟨by decide, by decide, by decide, by decide, lands_current⟩

theorem linkSite_init : LinkSite ["sbin", "init"] [initTarget, busyboxTarget] [] :=
  ⟨by decide, by decide, by decide, by decide, lands_init⟩

theorem linkSite_stage1 : LinkSite ["sbin", "runit-stage1"] [stage1Target] [] :=
  ⟨by decide, by decide, by decide, by decide, lands_of_absolute (by decide)⟩

theorem linkSite_shell : LinkSite ["bin", "sh"] [bashTarget, ⟨false, ["busybox"]⟩] [] :=
  ⟨by decide, by decide, by decide, by decide, lands_shell⟩

end AqjOs.Rootfs
