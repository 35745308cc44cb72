import AqjOs.Files.Coreutils

/-!
# Removing and unpacking whole trees

`rm -rf` takes away what stands at a place and below it; a run that fails leaves
a part of that behind, with the directories above it.  `tar -x` makes the missing
directories above each member and puts the member in its place, where only a
directory stays what it is.
-/

namespace AqjOs.Files

open AqjOs.Shell

universe u

variable {κ : Type u}

namespace LinkTree

/-- `mkdir -p` of directories that are there. -/
theorem mkdirs_unchanged {tree : LinkTree κ} {paths : List Path} (mode : Nat)
    (held : ∀ path ∈ paths, (∀ name ∈ path, Plain name) ∧ tree.holdsDirectory path = true) :
    mkdirs mode paths tree = (.success, tree) := by
  apply Command.each_unchanged
  intro command member
  obtain ⟨above, listed, rfl⟩ := List.mem_map.mp member
  obtain ⟨path, given, isAbove⟩ := List.mem_flatMap.mp listed
  obtain ⟨rest, rfl⟩ := (List.mem_inits _ _).mp (List.mem_of_mem_tail isAbove)
  obtain ⟨plain, directory⟩ := held _ given
  have plainAbove : ∀ name ∈ above, Plain name :=
    fun name inAbove => plain name (List.mem_append_left rest inAbove)
  have there : tree.isDirectory above = true :=
    isDirectory_of_holdsDirectory plainAbove (holdsDirectory_of_append directory)
  simp [Command.ofOption, makeDirectory, there]

/-- `mkdir -p` of a directory that is there. -/
theorem mkdirs_of_holdsDirectory {tree : LinkTree κ} {path : Path} (mode : Nat)
    (plain : ∀ name ∈ path, Plain name) (held : tree.holdsDirectory path = true) :
    mkdirs mode [path] tree = (.success, tree) := by
  apply mkdirs_unchanged
  intro other member
  obtain rfl := List.mem_singleton.mp member
  exact ⟨plain, held⟩

/-- `mkdir -p` of a directory that is missing in one that is there. -/
theorem mkdirs_of_missing {tree : LinkTree κ} {above : Path} {name : String} (mode : Nat)
    (plain : ∀ other ∈ above ++ [name], Plain other) (held : tree.holdsDirectory above = true)
    (missing : tree.node (above ++ [name]) = none) :
    ∃ next, tree.set (above ++ [name]) (.directory mode) = some next ∧
      mkdirs mode [above ++ [name]] tree = (.success, next) := by
  have parent : tree.holdsDirectory (above ++ [name]).dropLast = true := by
    rwa [List.dropLast_concat]
  obtain ⟨next, placed⟩ : ∃ next, tree.set (above ++ [name]) (.directory mode) = some next :=
    exists_set (by simp) parent fun _ => rfl
  refine ⟨next, placed, ?_⟩
  have plainAbove : ∀ other ∈ above, Plain other :=
    fun other member => plain other (List.mem_append_left [name] member)
  have there : mkdirs mode [above] tree = (.success, tree) :=
    mkdirs_of_holdsDirectory mode plainAbove held
  have made : tree.makeDirectory mode (above ++ [name]) = some next := by
    rw [makeDirectory_missing plain (by simp) parent mode missing, placed]
  have places : (above ++ [name]).inits.tail = above.inits.tail ++ [above ++ [name]] := by
    rw [List.inits_append, List.tail_append_of_ne_nil]
    · simp
    · cases above <;> simp
  simp only [mkdirs, List.flatMap_singleton] at there ⊢
  rw [places, List.map_append, Command.each_append, there]
  simp [Command.each, Command.ofOption, made]

/-! ## Removal -/

/-- Every name of the path from the place on is kept. -/
def survives (place : Path) (keep : Path → Bool) (path : Path) : Bool :=
  path.inits.all fun above => !place.isPrefixOf above || keep above

theorem survives_parent {place path : Path} {keep : Path → Bool} {name : String}
    (kept : survives place keep (path ++ [name]) = true) : survives place keep path = true := by
  rw [survives, List.all_eq_true] at kept ⊢
  intro above member
  rw [List.mem_inits] at member
  exact kept above ((List.mem_inits _ _).mpr (member.trans (List.prefix_append path [name])))

/-- The tree without what stands at a place and below it and is not kept. -/
def remove (place : Path) (keep : Path → Bool) (tree : LinkTree κ) : LinkTree κ where
  node path :=
    if place ≠ [] ∧ place <+: path ∧ survives place keep path = false then none
    else tree.node path
  root := by
    rw [if_neg]
    · exact tree.root
    · rintro ⟨proper, below, -⟩
      exact proper (List.prefix_nil.mp below)
  closed := by
    intro path name present
    split at present
    · exact absurd rfl present
    · rename_i remains
      rw [if_neg]
      · exact tree.closed path name present
      · rintro ⟨proper, below, gone⟩
        apply remains
        refine ⟨proper, below.trans (List.prefix_append path [name]), ?_⟩
        rw [Bool.eq_false_iff] at gone ⊢
        intro kept
        exact gone (survives_parent kept)

theorem node_remove_outside {place path : Path} {keep : Path → Bool} (tree : LinkTree κ)
    (outside : ¬ place <+: path) : (tree.remove place keep).node path = tree.node path := by
  rw [remove]
  exact if_neg fun gone => outside gone.2.1

/-- A node is removed or left alone. -/
theorem node_remove_or (tree : LinkTree κ) (place : Path) (keep : Path → Bool) (path : Path) :
    (tree.remove place keep).node path = none ∨
      (tree.remove place keep).node path = tree.node path := by
  rw [remove]
  exact ite_eq_or_eq _ _ _

/-- What is missing can be removed without a trace. -/
theorem remove_of_missing {place : Path} (keep : Path → Bool) {tree : LinkTree κ}
    (missing : tree.node place = none) : tree.remove place keep = tree := by
  have nothing : ∀ rest, tree.node (place ++ rest) = none := by
    intro rest
    induction rest using List.reverseRecOn with
    | nil => rw [List.append_nil, missing]
    | append_singleton rest name ih =>
        by_contra present
        rw [← List.append_assoc] at present
        have parent := tree.closed _ _ present
        rw [ih] at parent
        cases parent
  ext1
  funext path
  by_cases below : place <+: path
  · obtain ⟨rest, rfl⟩ := below
    simp [remove, nothing rest]
  · exact node_remove_outside tree below

/-- What is removed altogether is gone. -/
theorem node_remove_self {place : Path} (tree : LinkTree κ) (proper : place ≠ []) :
    (tree.remove place fun _ => false).node place = none := by
  have gone : survives place (fun _ => false) place = false := by
    rw [Bool.eq_false_iff, survives, Ne, List.all_eq_true]
    intro all
    have self := all place ((List.mem_inits _ _).mpr (List.prefix_refl place))
    rw [List.isPrefixOf_iff_prefix.mpr (List.prefix_refl place)] at self
    contradiction
  rw [remove]
  exact if_pos ⟨proper, List.prefix_refl place, gone⟩

/-- A removal adds nothing. -/
theorem node_remove_of_missing {place path : Path} {keep : Path → Bool} {tree : LinkTree κ}
    (missing : tree.node path = none) : (tree.remove place keep).node path = none := by
  rw [remove]
  simp only [missing, ite_self]

/-- `rm -rf path`.  It refuses `.` and `..`, and what is not there is no error. -/
def removeAll (ok : Bool) (keep : Path → Bool) (path : Path) : Command (LinkTree κ) :=
  fun tree =>
    if path.getLast? = some "." ∨ path.getLast? = some ".." then (.failure, tree)
    else
      match tree.locate path with
      | some place =>
          (Status.ofBool ok, tree.remove place (if ok then fun _ => false else keep))
      | none => (.success, tree)

theorem MakesNoLink.removeAll (target : Target) (ok : Bool) (keep : Path → Bool) (path : Path) :
    MakesNoLink target (LinkTree.removeAll ok keep path : Command (LinkTree κ)) := by
  intro tree other there
  unfold LinkTree.removeAll at there
  split at there
  · exact there
  · split at there
    · rename_i place _
      rcases node_remove_or tree place (if ok then fun _ => false else keep) other with
        gone | same
      · rw [gone] at there
        contradiction
      · rw [← same]
        exact there
    · exact there

/-- A removal in a directory stays inside it. -/
theorem removeAll_outside {ok : Bool} {keep : Path → Bool} {tree : LinkTree κ}
    {directory base path : Path} {name : String} (leads : tree.resolve directory = some base)
    (outside : ¬ (base <+: path ∧ path ≠ base)) :
    (removeAll ok keep (directory ++ [name]) tree).2.node path = tree.node path := by
  have located : tree.locate (directory ++ [name]) =
      if tree.holdsDirectory base then some (base ++ [name]) else none := by
    simp [locate, leads]
  rw [removeAll, located]
  split
  · rfl
  · split
    · case h_1 place found =>
        apply node_remove_outside
        rintro ⟨rest, rfl⟩
        apply outside
        split at found
        · cases found
          refine ⟨?_, ?_⟩
          · rw [List.append_assoc]
            exact List.prefix_append base _
          · simp
        · cases found
    · rfl

/-! ## Unpacking -/

/-- A directory above a member, or a directory that is a member. -/
def ensureDirectory (mode : Nat) (path : Path) (tree : LinkTree κ) : Option (LinkTree κ) :=
  match tree.node path with
  | none => tree.set path (.directory mode)
  | some (.directory _) => some tree
  | some _ => none

/-- Put a member in its place. -/
def placeMember (path : Path) (node : Node κ) (tree : LinkTree κ) : Option (LinkTree κ) :=
  match node with
  | .directory mode => tree.ensureDirectory mode path
  | other => tree.set path other

/-- The steps for one member: the directories above it from the top down, and
the member. -/
def memberSteps (mode : Nat) (base : Path) (member : Path × Node κ) :
    List (Command (LinkTree κ)) :=
  member.1.dropLast.inits.tail.map
      (fun above => .ofOption (ensureDirectory mode (base ++ above))) ++
    [.ofOption (placeMember (base ++ member.1) member.2)]

/-- `tar -x -C path`, with the members in their order. -/
def unpack (mode : Nat) (members : List (Path × Node κ)) (path : Path) : Command (LinkTree κ) :=
  fun tree =>
    match (tree.resolve path).filter tree.holdsDirectory with
    | some base => Command.each (members.flatMap (memberSteps mode base)) tree
    | none => (.failure, tree)

theorem holdsDirectory_set {tree next : LinkTree κ} {path directory : Path} {new : Node κ}
    (placed : tree.set path new = some next) (held : tree.holdsDirectory directory = true) :
    next.holdsDirectory directory = true := by
  rw [holdsDirectory, node_set placed]
  by_cases same : directory = path
  · rw [if_pos same, Option.any_some]
    rw [set] at placed
    split at placed
    · rename_i proper
      exact proper.2.2 (same ▸ held)
    · cases placed
  · rw [if_neg same]
    exact held

theorem holdsDirectory_ensure {tree next : LinkTree κ} {mode : Nat} {path directory : Path}
    (made : tree.ensureDirectory mode path = some next)
    (held : tree.holdsDirectory directory = true) : next.holdsDirectory directory = true := by
  rw [ensureDirectory] at made
  split at made
  · exact holdsDirectory_set made held
  · cases made
    exact held
  · cases made

/-- No step of an extraction takes a directory away. -/
theorem holdsDirectory_memberSteps {mode : Nat} {base directory : Path}
    {member : Path × Node κ} {step : Command (LinkTree κ)}
    (isStep : step ∈ memberSteps mode base member) {tree : LinkTree κ}
    (held : tree.holdsDirectory directory = true) :
    (step tree).2.holdsDirectory directory = true := by
  rcases List.mem_append.mp isStep with isAbove | isLast
  · obtain ⟨above, -, rfl⟩ := List.mem_map.mp isAbove
    exact Command.ofOption_snd (fun other : LinkTree κ => other.holdsDirectory directory = true)
      held fun next made => holdsDirectory_ensure made held
  · rw [List.mem_singleton.mp isLast]
    have kept : ∀ next, placeMember (base ++ member.1) member.2 tree = some next →
        next.holdsDirectory directory = true := by
      intro next placed
      cases node : member.2 with
      | directory own =>
          rw [node] at placed
          exact holdsDirectory_ensure placed held
      | file content own =>
          rw [node] at placed
          exact holdsDirectory_set placed held
      | link target =>
          rw [node] at placed
          exact holdsDirectory_set placed held
    exact Command.ofOption_snd (fun other : LinkTree κ => other.holdsDirectory directory = true)
      held kept

/-- The steps for a member stay below its topmost directory. -/
theorem node_memberSteps {mode : Nat} {base path rest : Path} {name : String} {node : Node κ}
    {step : Command (LinkTree κ)} (isStep : step ∈ memberSteps mode base (name :: rest, node))
    (outside : ¬ base ++ [name] <+: path) (tree : LinkTree κ) :
    (step tree).2.node path = tree.node path := by
  have apart : ∀ below, path ≠ base ++ name :: below := by
    rintro below rfl
    exact outside ⟨below, by simp⟩
  have ensured : ∀ made below next, ensureDirectory made (base ++ name :: below) tree = some next →
      next.node path = tree.node path := by
    intro made below next defined
    rw [ensureDirectory] at defined
    split at defined
    · rw [node_set defined, if_neg (apart below)]
    · cases defined
      rfl
    · cases defined
  rcases List.mem_append.mp isStep with isAbove | isLast
  · obtain ⟨above, member, rfl⟩ := List.mem_map.mp isAbove
    obtain ⟨below, rfl⟩ : ∃ below, above = name :: below := by
      cases rest with
      | nil => cases member
      | cons second rest =>
          rw [List.dropLast_cons_cons, List.inits_cons, List.tail_cons] at member
          obtain ⟨below, -, rfl⟩ := List.mem_map.mp member
          exact ⟨below, rfl⟩
    exact Command.ofOption_snd (fun other : LinkTree κ => other.node path = tree.node path) rfl
      (ensured mode below)
  · rw [List.mem_singleton.mp isLast]
    apply Command.ofOption_snd (fun other : LinkTree κ => other.node path = tree.node path) rfl
    intro next placed
    cases node with
    | directory own => exact ensured own rest next placed
    | file content own => rw [node_set placed, if_neg (apart rest)]
    | link target => rw [node_set placed, if_neg (apart rest)]

/-- A directory that is missing in a directory is made. -/
theorem holdsDirectory_ensure_missing {tree : LinkTree κ} {base : Path} {name : String}
    (mode : Nat) (held : tree.holdsDirectory base = true)
    (missing : tree.node (base ++ [name]) = none) :
    (Command.ofOption (ensureDirectory mode (base ++ [name])) tree).2.holdsDirectory
      (base ++ [name]) = true := by
  have parent : tree.holdsDirectory (base ++ [name]).dropLast = true := by
    rwa [List.dropLast_concat]
  obtain ⟨next, placed⟩ : ∃ next, tree.set (base ++ [name]) (.directory mode) = some next :=
    exists_set (by simp) parent fun _ => rfl
  have made : tree.ensureDirectory mode (base ++ [name]) = some next := by
    rw [ensureDirectory, missing]
    exact placed
  simp only [Command.ofOption, made]
  rw [holdsDirectory, node_set placed, if_pos rfl]
  rfl

/-- The first step for a member is to make its topmost directory. -/
theorem memberSteps_head (mode : Nat) (base : Path) (name : String) (rest : Path)
    (node : Node κ) (top : rest = [] → node.isDirectory = true) :
    ∃ made steps, memberSteps mode base (name :: rest, node) =
      .ofOption (ensureDirectory made (base ++ [name])) :: steps := by
  cases rest with
  | nil =>
      cases node with
      | directory own => exact ⟨own, [], rfl⟩
      | file content own => cases top rfl
      | link target => cases top rfl
  | cons second rest =>
      obtain ⟨longer, initsEq⟩ : ∃ longer, (second :: rest).dropLast.inits = [] :: longer := by
        cases (second :: rest).dropLast with
        | nil => exact ⟨[], rfl⟩
        | cons third above => exact ⟨_, List.inits_cons third above⟩
      refine ⟨mode, (longer.map (name :: ·)).map
        (fun above => .ofOption (ensureDirectory mode (base ++ above))) ++
          [.ofOption (placeMember (base ++ name :: second :: rest) node)], ?_⟩
      rw [memberSteps, List.dropLast_cons_cons, List.inits_cons, List.tail_cons, initsEq]
      rfl

/-- The first member below a missing name makes it a directory, and the rest of
the extraction leaves it one. -/
theorem holdsDirectory_unpack {tree : LinkTree κ} {mode : Nat} {base : Path} {name : String}
    {rest : Path} {node : Node κ} {others : List (Path × Node κ)}
    (held : tree.holdsDirectory base = true) (missing : tree.node (base ++ [name]) = none)
    (top : rest = [] → node.isDirectory = true) :
    (Command.each (((name :: rest, node) :: others).flatMap (memberSteps mode base))
      tree).2.holdsDirectory (base ++ [name]) = true := by
  obtain ⟨made, steps, first⟩ := memberSteps_head mode base name rest node top
  have kept : ∀ step ∈ steps ++ others.flatMap (memberSteps mode base), ∀ tree : LinkTree κ,
      tree.holdsDirectory (base ++ [name]) = true →
        (step tree).2.holdsDirectory (base ++ [name]) = true := by
    intro step member tree held
    rcases List.mem_append.mp member with early | late
    · have isStep : step ∈ memberSteps mode base (name :: rest, node) := by
        rw [first]
        exact List.mem_cons_of_mem _ early
      exact holdsDirectory_memberSteps isStep held
    · obtain ⟨other, -, isStep⟩ := List.mem_flatMap.mp late
      exact holdsDirectory_memberSteps isStep held
  rw [List.flatMap_cons, first, List.cons_append]
  exact Command.each_snd
    (fun other : LinkTree κ => other.holdsDirectory (base ++ [name]) = true) kept
    (holdsDirectory_ensure_missing made held missing)

end LinkTree

end AqjOs.Files
