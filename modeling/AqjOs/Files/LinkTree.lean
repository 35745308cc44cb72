import Mathlib.Data.List.Infix

/-!
# Trees with symbolic links

A node is a directory, a regular file or a symbolic link; directories and files
carry a mode.  A link holds an uninterpreted target, and a walk interprets it
against the directory the link stands in or, if the target is absolute, against
the root that the walk was given.  Walks give up after a fixed number of links.
-/

namespace AqjOs.Files

universe u

/-- The names from the root of the tree downwards. -/
abbrev Path := List String

instance Path.lawfulBEq : LawfulBEq Path :=
  List.instLawfulBEq

/-- The text of a symbolic link. -/
structure Target where
  absolute : Bool
  names : List String
  deriving DecidableEq, Repr

namespace Target

/-- The last name of the target. -/
def basename (target : Target) : String :=
  target.names.getLast?.getD ""

end Target

/-- What a path names, without following links. -/
inductive Node (κ : Type u)
  | directory (mode : Nat)
  | file (content : κ) (mode : Nat)
  | link (target : Target)
  deriving DecidableEq, Repr

namespace Node

variable {κ : Type u}

def isDirectory : Node κ → Bool
  | directory _ => true
  | _ => false

def isLink : Node κ → Bool
  | link _ => true
  | _ => false

/-- Change the mode of a directory or a file; a link has none. -/
def withMode (change : Nat → Nat) : Node κ → Node κ
  | directory mode => directory (change mode)
  | file content mode => file content (change mode)
  | link target => link target

@[simp]
theorem isDirectory_withMode (change : Nat → Nat) (node : Node κ) :
    (node.withMode change).isDirectory = node.isDirectory := by
  cases node <;> rfl

@[simp]
theorem isLink_withMode (change : Nat → Nat) (node : Node κ) :
    (node.withMode change).isLink = node.isLink := by
  cases node <;> rfl

end Node

/-- A tree of directories, files and symbolic links. -/
@[ext]
structure LinkTree (κ : Type u) where
  node : Path → Option (Node κ)
  root : (node []).any Node.isDirectory = true
  closed : ∀ path name, node (path ++ [name]) ≠ none →
    (node path).any Node.isDirectory = true

namespace LinkTree

variable {κ : Type u}

/-- The path itself, not what it leads to, is a directory. -/
def holdsDirectory (tree : LinkTree κ) (path : Path) : Bool :=
  (tree.node path).any Node.isDirectory

/-- The path itself is a symbolic link. -/
def holdsLink (tree : LinkTree κ) (path : Path) : Bool :=
  (tree.node path).any Node.isLink

theorem holdsDirectory_iff {tree : LinkTree κ} {path : Path} :
    tree.holdsDirectory path = true ↔ ∃ mode, tree.node path = some (.directory mode) := by
  unfold holdsDirectory
  rcases tree.node path with _ | (mode | ⟨content, mode⟩ | target) <;> simp [Node.isDirectory]

@[simp]
theorem holdsDirectory_nil (tree : LinkTree κ) : tree.holdsDirectory [] = true :=
  tree.root

theorem holdsDirectory_parent {tree : LinkTree κ} {path : Path} {name : String}
    (present : tree.node (path ++ [name]) ≠ none) : tree.holdsDirectory path = true :=
  tree.closed path name present

/-- Whatever stands above a directory is a directory. -/
theorem holdsDirectory_of_append {tree : LinkTree κ} {path rest : Path}
    (below : tree.holdsDirectory (path ++ rest) = true) : tree.holdsDirectory path = true := by
  induction rest using List.reverseRecOn with
  | nil => simpa using below
  | append_singleton rest name inductionHypothesis =>
      rw [← List.append_assoc] at below
      obtain ⟨mode, directory⟩ := holdsDirectory_iff.mp below
      have present : tree.node (path ++ rest ++ [name]) ≠ none := by
        rw [directory]
        exact Option.some_ne_none _
      exact inductionHypothesis (holdsDirectory_parent present)

/-! ## Changing one node -/

/-- Put a node at a path.  Its parent has to be a directory already, and a
directory is replaced by nothing else. -/
def set (tree : LinkTree κ) (path : Path) (new : Node κ) : Option (LinkTree κ) :=
  if proper : path ≠ [] ∧ tree.holdsDirectory path.dropLast = true ∧
      (tree.holdsDirectory path = true → new.isDirectory = true) then
    some {
      node := fun other => if other = path then some new else tree.node other
      root := by rw [if_neg (Ne.symm proper.1)]; exact tree.root
      closed := by
        obtain ⟨_, parent, keeps⟩ := proper
        intro above name present
        by_cases same : above ++ [name] = path
        · subst same
          rw [List.dropLast_concat] at parent
          rw [if_neg (by simp)]
          exact parent
        · rw [if_neg same] at present
          have directory := tree.closed above name present
          by_cases here : above = path
          · rw [if_pos here]
            exact keeps (here ▸ directory)
          · rw [if_neg here]
            exact directory }
  else none

theorem node_set {tree next : LinkTree κ} {path : Path} {new : Node κ}
    (placed : tree.set path new = some next) (other : Path) :
    next.node other = if other = path then some new else tree.node other := by
  unfold set at placed
  split at placed
  · cases placed
    rfl
  · contradiction

theorem exists_set {tree : LinkTree κ} {path : Path} {new : Node κ} (proper : path ≠ [])
    (parent : tree.holdsDirectory path.dropLast = true)
    (keeps : tree.holdsDirectory path = true → new.isDirectory = true) :
    ∃ next, tree.set path new = some next := by
  unfold set
  rw [dif_pos ⟨proper, parent, keeps⟩]
  exact ⟨_, rfl⟩

/-- The tree with nothing in its root directory. -/
def empty : LinkTree κ where
  node path := if path = [] then some (.directory 0o755) else none
  root := rfl
  closed := by
    intro path name present
    simp at present

/-- Put nodes into the empty tree, parents before their entries. -/
def ofEntries (entries : List (Path × Node κ)) : LinkTree κ :=
  entries.foldl (fun tree entry => (tree.set entry.1 entry.2).getD tree) empty

/-- Nothing else is in the tree than its root and the given nodes. -/
theorem mem_of_node_ofEntries {entries : List (Path × Node κ)} {path : Path} {new : Node κ}
    (there : (ofEntries entries).node path = some new) :
    path = [] ∨ (path, new) ∈ entries := by
  induction entries using List.reverseRecOn with
  | nil =>
      left
      by_contra proper
      simp [ofEntries, empty, proper] at there
  | append_singleton entries entry inductionHypothesis =>
      rw [ofEntries, List.foldl_concat] at there
      change ((((ofEntries entries).set entry.1 entry.2).getD (ofEntries entries)).node path =
        some new) at there
      cases placed : (ofEntries entries).set entry.1 entry.2 with
      | none =>
          rw [placed] at there
          exact (inductionHypothesis there).imp id fun member => by simp [member]
      | some next =>
          rw [placed, Option.getD_some, node_set placed] at there
          by_cases here : path = entry.1
          · rw [if_pos here] at there
            right
            simp [here, ← Option.some.inj there]
          · rw [if_neg here] at there
            exact (inductionHypothesis there).imp id fun member => by simp [member]

/-! ## Following paths -/

/-- Follow names from a directory.  A file or a missing entry can only come
last, so that the result may be the place of something to be created; a link is
handed to `follow` together with what remains of the path. -/
def walkWith (tree : LinkTree κ) (top : Path) (follow : Path → List String → Option Path) :
    Path → List String → Option Path
  | here, [] => some here
  | here, name :: rest =>
      if name = "" ∨ name = "." then walkWith tree top follow here rest
      else if name = ".." then
        walkWith tree top follow (if here = top then top else here.dropLast) rest
      else
        match tree.node (here ++ [name]) with
        | some (.directory _) => walkWith tree top follow (here ++ [name]) rest
        | some (.link target) =>
            follow (if target.absolute then top else here) (target.names ++ rest)
        | _ => if rest = [] then some (here ++ [name]) else none

/-- Follow names, going through at most the given number of links. -/
def walk (tree : LinkTree κ) (top : Path) : Nat → Path → List String → Option Path
  | 0 => walkWith tree top fun _ _ => none
  | links + 1 => walkWith tree top (walk tree top links)

/-- The number of links after which a walk gives up. -/
def maxLinks : Nat :=
  40

/-- Where a path leads when `top` is the root directory. -/
def resolveIn (tree : LinkTree κ) (top names : Path) : Option Path :=
  tree.walk top maxLinks top names

/-- Where an absolute path leads. -/
def resolve (tree : LinkTree κ) (path : Path) : Option Path :=
  tree.resolveIn [] path

/-- The place of the last name of a path: only the names above it are followed. -/
def locate (tree : LinkTree κ) (path : Path) : Option Path :=
  path.getLast?.bind fun name =>
    (tree.resolve path.dropLast).bind fun parent =>
      if tree.holdsDirectory parent then some (parent ++ [name]) else none

/-- `[ -d path ]`. -/
def isDirectory (tree : LinkTree κ) (path : Path) : Bool :=
  (tree.resolve path).any tree.holdsDirectory

/-- The regular file that a path leads to. -/
def fileAt (tree : LinkTree κ) (path : Path) : Option (κ × Nat) :=
  (tree.resolve path).bind fun place =>
    match tree.node place with
    | some (.file content mode) => some (content, mode)
    | _ => none

/-- `[ -f path ]`. -/
def isFile (tree : LinkTree κ) (path : Path) : Bool :=
  (tree.fileAt path).isSome

/-- A name that stands for an entry of the directory it is looked up in. -/
def Plain (name : String) : Prop :=
  name ≠ "" ∧ name ≠ "." ∧ name ≠ ".."

instance (name : String) : Decidable (Plain name) :=
  inferInstanceAs (Decidable (_ ∧ _))

section Walks

variable {tree : LinkTree κ} {top : Path} {follow : Path → List String → Option Path}

@[simp]
theorem walkWith_nil (here : Path) : tree.walkWith top follow here [] = some here :=
  rfl

theorem walkWith_cons {name : String} (plain : Plain name) (here : Path) (rest : List String) :
    tree.walkWith top follow here (name :: rest) =
      match tree.node (here ++ [name]) with
      | some (.directory _) => tree.walkWith top follow (here ++ [name]) rest
      | some (.link target) =>
          follow (if target.absolute then top else here) (target.names ++ rest)
      | _ => if rest = [] then some (here ++ [name]) else none := by
  obtain ⟨notEmpty, notHere, notUp⟩ := plain
  rw [walkWith, if_neg (by simp [notEmpty, notHere]), if_neg notUp]

theorem walkWith_up {here : Path} (below : here ≠ top) (rest : List String) :
    tree.walkWith top follow here (".." :: rest) =
      tree.walkWith top follow here.dropLast rest := by
  rw [walkWith, if_neg (by decide), if_pos rfl, if_neg below]

/-- Walks reach at least as far when links are followed further. -/
theorem walkWith_mono {follow' : Path → List String → Option Path}
    (further : ∀ here names place, follow here names = some place →
      follow' here names = some place) {here : Path} {names : List String} {place : Path}
    (reached : tree.walkWith top follow here names = some place) :
    tree.walkWith top follow' here names = some place := by
  induction names generalizing here with
  | nil => exact reached
  | cons name rest inductionHypothesis =>
      unfold walkWith at reached ⊢
      by_cases stays : name = "" ∨ name = "."
      · rw [if_pos stays] at reached ⊢
        exact inductionHypothesis reached
      rw [if_neg stays] at reached ⊢
      by_cases up : name = ".."
      · rw [if_pos up] at reached ⊢
        exact inductionHypothesis reached
      rw [if_neg up] at reached ⊢
      rcases there : tree.node (here ++ [name]) with _ | (mode | ⟨content, mode⟩ | target)
      · rwa [there] at reached
      · rw [there] at reached
        exact inductionHypothesis reached
      · rwa [there] at reached
      · rw [there] at reached
        exact further _ _ _ reached

theorem walk_succ {links : Nat} {here : Path} {names : List String} {place : Path}
    (reached : tree.walk top links here names = some place) :
    tree.walk top (links + 1) here names = some place := by
  induction links generalizing here names place with
  | zero =>
      apply walkWith_mono _ reached
      intro here names place impossible
      contradiction
  | succ links inductionHypothesis =>
      apply walkWith_mono _ reached
      intro here names place followed
      exact inductionHypothesis followed

/-- A walk along real directories follows no link. -/
theorem walkWith_append {here names : Path} (plain : ∀ name ∈ names, Plain name)
    (directory : tree.holdsDirectory (here ++ names) = true) (rest : List String) :
    tree.walkWith top follow here (names ++ rest) =
      tree.walkWith top follow (here ++ names) rest := by
  induction names generalizing here with
  | nil => simp
  | cons name names inductionHypothesis =>
      have split : here ++ name :: names = here ++ [name] ++ names := by simp
      rw [split] at directory ⊢
      obtain ⟨mode, first⟩ := holdsDirectory_iff.mp (holdsDirectory_of_append directory)
      rw [List.cons_append, walkWith_cons (plain name (by simp)), first]
      exact inductionHypothesis (fun other member => plain other (by simp [member])) directory

/-- Where no name on the way is a link, a walk that goes on past them has gone
through real directories. -/
theorem walkWith_unlinked {here names rest : Path} {place : Path}
    (plain : ∀ name ∈ names, Plain name)
    (unlinked : ∀ above, above <+: names → tree.holdsLink (here ++ above) = false)
    (more : rest ≠ []) (start : tree.holdsDirectory here = true)
    (reached : tree.walkWith top follow here (names ++ rest) = some place) :
    tree.holdsDirectory (here ++ names) = true := by
  induction names generalizing here with
  | nil => simpa using start
  | cons name names inductionHypothesis =>
      have split : here ++ name :: names = here ++ [name] ++ names := by simp
      rw [List.cons_append, walkWith_cons (plain name (by simp))] at reached
      rw [split]
      have notLink := unlinked [name] (by simp)
      rcases there : tree.node (here ++ [name]) with _ | (mode | ⟨content, mode⟩ | target)
      · simp [there, more] at reached
      · rw [there] at reached
        apply inductionHypothesis (fun other member => plain other (by simp [member])) _
          (holdsDirectory_iff.mpr ⟨mode, there⟩) reached
        intro above under
        have deeper := unlinked (name :: above) (List.cons_prefix_cons.mpr ⟨rfl, under⟩)
        simpa using deeper
      · simp [there, more] at reached
      · simp [holdsLink, there, Node.isLink] at notLink

/-- A walk that meets no link goes where its names say. -/
theorem walkWith_straight {here names place : Path} (plain : ∀ name ∈ names, Plain name)
    (unlinked : ∀ above, above <+: names → tree.holdsLink (here ++ above) = false)
    (start : tree.holdsDirectory here = true)
    (reached : tree.walkWith top follow here names = some place) : place = here ++ names := by
  rcases List.eq_nil_or_concat' names with rfl | ⟨above, name, rfl⟩
  · simpa using reached.symm
  · have plainAbove : ∀ other ∈ above, Plain other := fun other member =>
      plain other (by simp [member])
    have directory := walkWith_unlinked plainAbove
      (fun other under => unlinked other (under.trans (List.prefix_append _ _)))
      (by simp) start reached
    rw [walkWith_append plainAbove directory, walkWith_cons (plain name (by simp))] at reached
    have notLink := unlinked _ (List.prefix_refl _)
    rw [← List.append_assoc] at notLink ⊢
    rcases there : tree.node (here ++ above ++ [name]) with _ | (mode | ⟨content, mode⟩ | target)
    · simp only [there, if_true] at reached
      exact (Option.some.inj reached).symm
    · simp only [there, walkWith_nil] at reached
      exact (Option.some.inj reached).symm
    · simp only [there, if_true] at reached
      exact (Option.some.inj reached).symm
    · rw [holdsLink, there] at notLink
      contradiction

end Walks

/-! ## Paths without links -/

/-- No name of the path stands for a link or for another directory. -/
structure Straight (tree : LinkTree κ) (path : Path) : Prop where
  plain : ∀ name ∈ path, Plain name
  unlinked : ∀ above, above <+: path → tree.holdsLink above = false

section Straight

variable {tree : LinkTree κ} {path place : Path}

theorem holdsLink_eq_false_of_holdsDirectory (directory : tree.holdsDirectory path = true) :
    tree.holdsLink path = false := by
  obtain ⟨mode, there⟩ := holdsDirectory_iff.mp directory
  simp [holdsLink, there, Node.isLink]

theorem straight_of_holdsDirectory (plain : ∀ name ∈ path, Plain name)
    (directory : tree.holdsDirectory path = true) : tree.Straight path := by
  constructor
  · exact plain
  · rintro above ⟨rest, rfl⟩
    exact holdsLink_eq_false_of_holdsDirectory (holdsDirectory_of_append directory)

theorem resolve_eq (path : Path) :
    tree.resolve path = tree.walkWith [] (tree.walk [] (maxLinks - 1)) [] path :=
  rfl

theorem resolve_concat {name : String} (plain : ∀ other ∈ path, Plain other)
    (directory : tree.holdsDirectory path = true) :
    tree.resolve (path ++ [name]) =
      tree.walkWith [] (tree.walk [] (maxLinks - 1)) path [name] := by
  rw [resolve_eq, walkWith_append plain (by simpa using directory), List.nil_append]

/-- A path to something that is no link, in a real directory, leads to itself. -/
theorem resolve_of_parent {name : String} (plain : ∀ other ∈ path ++ [name], Plain other)
    (directory : tree.holdsDirectory path = true)
    (unlinked : tree.holdsLink (path ++ [name]) = false) :
    tree.resolve (path ++ [name]) = some (path ++ [name]) := by
  have plainName := plain name (by simp)
  rw [resolve_concat (fun other member => plain other (by simp [member])) directory,
    walkWith_cons plainName]
  rcases there : tree.node (path ++ [name]) with _ | (mode | ⟨content, mode⟩ | target)
  · simp
  · simp
  · simp
  · simp [holdsLink, there, Node.isLink] at unlinked

/-- A path to a link leads where the link leads. -/
theorem resolve_link {name : String} {target : Target}
    (plain : ∀ other ∈ path ++ [name], Plain other)
    (there : tree.node (path ++ [name]) = some (.link target)) :
    tree.resolve (path ++ [name]) =
      tree.walk [] (maxLinks - 1) (if target.absolute then [] else path) target.names := by
  have directory : tree.holdsDirectory path = true := by
    apply holdsDirectory_parent
    rw [there]
    exact Option.some_ne_none _
  rw [resolve_concat (fun other member => plain other (by simp [member])) directory,
    walkWith_cons (plain name (by simp)), there]
  simp

/-- An absolute link to a directory leads to a directory of the root. -/
theorem isDirectory_of_absolute_link {name : String} {target : Target}
    (plain : ∀ other ∈ path ++ [name], Plain other)
    (there : tree.node (path ++ [name]) = some (.link target))
    (absolute : target.absolute = true)
    (leads : tree.isDirectory (path ++ [name]) = true) :
    tree.isDirectory target.names = true := by
  obtain ⟨place, resolved, directory⟩ := (Option.any_eq_true _ _).mp leads
  rw [resolve_link plain there, if_pos absolute] at resolved
  have further : tree.resolve target.names = some place := walk_succ resolved
  rw [isDirectory, further, Option.any_some]
  exact directory

namespace Straight

theorem dropLast (straight : tree.Straight path) : tree.Straight path.dropLast := by
  constructor
  · intro name member
    exact straight.plain name (List.mem_of_mem_dropLast member)
  · intro above under
    exact straight.unlinked above (under.trans (List.dropLast_prefix path))

theorem parent_of_resolve {name : String} (straight : tree.Straight path)
    (resolved : tree.resolve (path ++ [name]) = some place) :
    tree.holdsDirectory path = true := by
  rw [resolve_eq] at resolved
  have directory := walkWith_unlinked straight.plain (by simpa using straight.unlinked)
    (by simp) tree.holdsDirectory_nil resolved
  simpa using directory

/-- Where a path without links leads at all, it leads to itself. -/
theorem resolve_eq (straight : tree.Straight path)
    (resolved : tree.resolve path = some place) : place = path := by
  rcases List.eq_nil_or_concat' path with rfl | ⟨above, name, rfl⟩
  · exact (Option.some.inj resolved).symm
  · have directory := parent_of_resolve (by simpa using straight.dropLast) resolved
    rw [resolve_of_parent straight.plain directory (straight.unlinked _ (List.prefix_refl _))]
      at resolved
    exact (Option.some.inj resolved).symm

theorem isDirectory_eq (straight : tree.Straight path) :
    tree.isDirectory path = tree.holdsDirectory path := by
  unfold isDirectory
  cases resolved : tree.resolve path with
  | some place => rw [straight.resolve_eq resolved, Option.any_some]
  | none =>
      rw [Option.any_none]
      symm
      rw [Bool.eq_false_iff]
      intro directory
      rcases List.eq_nil_or_concat' path with rfl | ⟨above, name, rfl⟩
      · contradiction
      · rw [resolve_of_parent straight.plain (holdsDirectory_of_append directory)
          (straight.unlinked _ (List.prefix_refl _))] at resolved
        contradiction

/-- The place of a name below a path without links. -/
theorem locate_eq (straight : tree.Straight path.dropLast)
    (located : tree.locate path = some place) : place = path := by
  rcases List.eq_nil_or_concat' path with rfl | ⟨above, name, rfl⟩
  · contradiction
  · simp only [locate, List.getLast?_concat, Option.bind_some, List.dropLast_concat] at located
    rw [List.dropLast_concat] at straight
    obtain ⟨parent, resolved, located⟩ := Option.bind_eq_some_iff.mp located
    rw [straight.resolve_eq resolved] at located
    split at located
    · exact (Option.some.inj located).symm
    · contradiction

end Straight

theorem resolve_of_holdsDirectory (plain : ∀ name ∈ path, Plain name)
    (directory : tree.holdsDirectory path = true) : tree.resolve path = some path := by
  have straight := straight_of_holdsDirectory plain directory
  rcases List.eq_nil_or_concat' path with rfl | ⟨above, name, rfl⟩
  · rfl
  · exact resolve_of_parent plain (holdsDirectory_of_append directory)
      (straight.unlinked _ (List.prefix_refl _))

theorem locate_of_parent {name : String} (plain : ∀ other ∈ path, Plain other)
    (directory : tree.holdsDirectory path = true) :
    tree.locate (path ++ [name]) = some (path ++ [name]) := by
  simp [locate, resolve_of_holdsDirectory plain directory, directory]

theorem resolve_here (plain : ∀ name ∈ path, Plain name) (proper : path ≠ [])
    (parent : tree.holdsDirectory path.dropLast = true)
    (unlinked : tree.holdsLink path = false) : tree.resolve path = some path := by
  obtain ⟨above, name, rfl⟩ := (List.eq_nil_or_concat' path).resolve_left proper
  rw [List.dropLast_concat] at parent
  exact resolve_of_parent plain parent unlinked

theorem locate_here (plain : ∀ name ∈ path, Plain name) (proper : path ≠ [])
    (parent : tree.holdsDirectory path.dropLast = true) : tree.locate path = some path := by
  obtain ⟨above, name, rfl⟩ := (List.eq_nil_or_concat' path).resolve_left proper
  rw [List.dropLast_concat] at parent
  exact locate_of_parent (fun other member => plain other (by simp [member])) parent

theorem isDirectory_of_holdsDirectory (plain : ∀ name ∈ path, Plain name)
    (directory : tree.holdsDirectory path = true) : tree.isDirectory path = true := by
  rw [(straight_of_holdsDirectory plain directory).isDirectory_eq, directory]

end Straight

end LinkTree

end AqjOs.Files
