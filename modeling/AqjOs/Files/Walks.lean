import AqjOs.Files.Archive

/-!
# Walks from one directory to the next

A walk along the names of a path can be split at any directory on its way, and a
walk to a directory can be continued from there.  It takes the same way in every
tree that keeps the directories and the links of the first one.  From this it
follows what `rm -rf` and `mkdir -p` make of a path, whatever links lead to it.
-/

namespace AqjOs.Files

open AqjOs.Shell

universe u

namespace LinkTree

variable {κ : Type u}

/-! ## Splitting and continuing -/

section Splitting

variable {tree : LinkTree κ} {top here place : Path} {names rest : List String}

theorem holdsDirectory_dropLast (directory : tree.holdsDirectory here = true) :
    tree.holdsDirectory here.dropLast = true := by
  rcases List.eq_nil_or_concat' here with rfl | ⟨above, name, rfl⟩
  · exact directory
  · rw [List.dropLast_concat]
    exact holdsDirectory_of_append directory

theorem walkWith_split {follow : Path → List String → Option Path} {onward : Path → Prop}
    (more : rest ≠ []) (atTop : tree.holdsDirectory top = true)
    (reaches : ∀ base, tree.walkWith top follow base rest = some place → onward base)
    (further : ∀ here names, tree.holdsDirectory here = true →
      follow here (names ++ rest) = some place →
      ∃ base, follow here names = some base ∧ tree.holdsDirectory base = true ∧ onward base)
    (start : tree.holdsDirectory here = true)
    (reached : tree.walkWith top follow here (names ++ rest) = some place) :
    ∃ base, tree.walkWith top follow here names = some base ∧
      tree.holdsDirectory base = true ∧ onward base := by
  induction names generalizing here with
  | nil => exact ⟨here, rfl, start, reaches here reached⟩
  | cons name names ih =>
      rw [List.cons_append] at reached
      unfold walkWith at reached ⊢
      by_cases stays : name = "" ∨ name = "."
      · rw [if_pos stays] at reached ⊢
        exact ih start reached
      rw [if_neg stays] at reached ⊢
      by_cases up : name = ".."
      · rw [if_pos up] at reached ⊢
        apply ih _ reached
        split
        · exact atTop
        · exact holdsDirectory_dropLast start
      rw [if_neg up] at reached ⊢
      rcases there : tree.node (here ++ [name]) with _ | (mode | ⟨content, mode⟩ | target)
      · simp [there, more] at reached
      · rw [there] at reached
        exact ih (holdsDirectory_iff.mpr ⟨mode, there⟩) reached
      · simp [there, more] at reached
      · rw [there] at reached
        apply further _ _ _ (by simpa using reached)
        split
        · exact atTop
        · exact start

/-- Where a walk goes on after some names, they lead to a directory. -/
theorem walk_split {links : Nat} (more : rest ≠ []) (atTop : tree.holdsDirectory top = true)
    (start : tree.holdsDirectory here = true)
    (reached : tree.walk top links here (names ++ rest) = some place) :
    ∃ base, tree.walk top links here names = some base ∧ tree.holdsDirectory base = true ∧
      ∃ follow, tree.walkWith top follow base rest = some place := by
  induction links generalizing here names with
  | zero =>
      apply walkWith_split more atTop (fun base onward => ⟨_, onward⟩) _ start reached
      intro here names _ impossible
      contradiction
  | succ links ih =>
      apply walkWith_split more atTop (fun base onward => ⟨_, onward⟩) _ start reached
      intro here names start reached
      exact ih start reached

theorem walkWith_continue {follow : Path → List String → Option Path} {base : Path}
    (directory : tree.holdsDirectory base = true)
    (onward : tree.walkWith top follow base rest = some place)
    (further : ∀ here names, follow here names = some base →
      follow here (names ++ rest) = some place)
    (reached : tree.walkWith top follow here names = some base) :
    tree.walkWith top follow here (names ++ rest) = some place := by
  induction names generalizing here with
  | nil =>
      obtain rfl : here = base := Option.some.inj reached
      exact onward
  | cons name names ih =>
      rw [List.cons_append]
      unfold walkWith at reached ⊢
      by_cases stays : name = "" ∨ name = "."
      · rw [if_pos stays] at reached ⊢
        exact ih reached
      rw [if_neg stays] at reached ⊢
      by_cases up : name = ".."
      · rw [if_pos up] at reached ⊢
        exact ih reached
      rw [if_neg up] at reached ⊢
      rcases there : tree.node (here ++ [name]) with _ | (mode | ⟨content, mode⟩ | target)
      · rw [there] at reached
        obtain ⟨_, same⟩ := Option.ite_none_right_eq_some.mp reached
        obtain rfl := Option.some.inj same
        simp [holdsDirectory, there] at directory
      · rw [there] at reached
        exact ih reached
      · rw [there] at reached
        obtain ⟨_, same⟩ := Option.ite_none_right_eq_some.mp reached
        obtain rfl := Option.some.inj same
        simp [holdsDirectory, there, Node.isDirectory] at directory
      · rw [there] at reached
        have followed := further _ _ reached
        simpa using followed

/-- A walk to a directory goes on along real directories. -/
theorem walk_continue {links : Nat} {base : Path} (directory : tree.holdsDirectory base = true)
    (onward : ∀ follow, tree.walkWith top follow base rest = some place)
    (reached : tree.walk top links here names = some base) :
    tree.walk top links here (names ++ rest) = some place := by
  induction links generalizing here names with
  | zero =>
      apply walkWith_continue directory (onward _) _ reached
      intro here names impossible
      contradiction
  | succ links ih =>
      apply walkWith_continue directory (onward _) _ reached
      intro here names reached
      exact ih reached

end Splitting

/-! ## Trees that keep directories and links -/

/-- The directories and the links of the first tree are there in the second. -/
def Extends (before after : LinkTree κ) : Prop :=
  ∀ path, (before.holdsDirectory path = true → after.holdsDirectory path = true) ∧
    ∀ target, before.node path = some (.link target) → after.node path = some (.link target)

section Extends

variable {before after : LinkTree κ} {top here base : Path} {names : List String}

theorem walkWith_extends {follow follow' : Path → List String → Option Path}
    (grows : Extends before after) (directory : before.holdsDirectory base = true)
    (further : ∀ here names, follow here names = some base → follow' here names = some base)
    (reached : before.walkWith top follow here names = some base) :
    after.walkWith top follow' here names = some base := by
  induction names generalizing here with
  | nil => exact reached
  | cons name names ih =>
      unfold walkWith at reached ⊢
      by_cases stays : name = "" ∨ name = "."
      · rw [if_pos stays] at reached ⊢
        exact ih reached
      rw [if_neg stays] at reached ⊢
      by_cases up : name = ".."
      · rw [if_pos up] at reached ⊢
        exact ih reached
      rw [if_neg up] at reached ⊢
      rcases there : before.node (here ++ [name]) with _ | (mode | ⟨content, mode⟩ | target)
      · rw [there] at reached
        obtain ⟨_, same⟩ := Option.ite_none_right_eq_some.mp reached
        obtain rfl := Option.some.inj same
        simp [holdsDirectory, there] at directory
      · rw [there] at reached
        obtain ⟨mode', kept⟩ :=
          holdsDirectory_iff.mp ((grows _).1 (holdsDirectory_iff.mpr ⟨mode, there⟩))
        rw [kept]
        exact ih reached
      · rw [there] at reached
        obtain ⟨_, same⟩ := Option.ite_none_right_eq_some.mp reached
        obtain rfl := Option.some.inj same
        simp [holdsDirectory, there, Node.isDirectory] at directory
      · rw [there] at reached
        rw [(grows _).2 target there]
        exact further _ _ reached

/-- A path to a directory leads there also in a tree that keeps its way. -/
theorem resolve_extends {path : Path} (grows : Extends before after)
    (directory : before.holdsDirectory base = true) (reached : before.resolve path = some base) :
    after.resolve path = some base := by
  have walks (links : Nat) : ∀ here names, before.walk [] links here names = some base →
      after.walk [] links here names = some base := by
    induction links with
    | zero =>
        intro here names reached
        apply walkWith_extends grows directory _ reached
        intro here names impossible
        contradiction
    | succ links ih =>
        intro here names reached
        exact walkWith_extends grows directory ih reached
  exact walks _ _ _ reached

/-- Putting a node in the place of anything but a link keeps directories and
links. -/
theorem extends_set {path : Path} {new : Node κ} (placed : before.set path new = some after)
    (unlinked : before.holdsLink path = false) : Extends before after := by
  have keeps : before.holdsDirectory path = true → new.isDirectory = true := by
    unfold set at placed
    split at placed
    · rename_i proper
      exact proper.2.2
    · contradiction
  intro other
  rw [holdsDirectory, holdsDirectory, node_set placed]
  by_cases here : other = path
  · subst here
    rw [if_pos rfl]
    refine ⟨fun directory => keeps directory, ?_⟩
    intro target there
    simp [holdsLink, there, Node.isLink] at unlinked
  · rw [if_neg here]
    exact ⟨id, fun _ => id⟩

theorem remove_extends (tree : LinkTree κ) (place : Path) (keep : Path → Bool) :
    Extends (tree.remove place keep) tree := by
  intro path
  rcases node_remove_or tree place keep path with gone | same
  · rw [holdsDirectory, gone]
    constructor
    · intro impossible
      contradiction
    · intro target impossible
      contradiction
  · rw [holdsDirectory, holdsDirectory, same]
    exact ⟨id, fun _ => id⟩

end Extends

/-! ## Removing a path and making it again -/

section Fresh

variable {tree next : LinkTree κ} {above : Path} {name last : String}

/-- Nothing stands at the path, however it is reached. -/
def Absent (path : Path) (tree : LinkTree κ) : Prop :=
  ∀ place, tree.locate path = some place → tree.node place = none

theorem locate_concat_eq_some {place : Path} :
    tree.locate (above ++ [name]) = some place ↔
      ∃ parent, tree.resolve above = some parent ∧ tree.holdsDirectory parent = true ∧
        place = parent ++ [name] := by
  simp only [locate, List.getLast?_concat, Option.bind_some, List.dropLast_concat]
  constructor
  · intro located
    obtain ⟨parent, resolved, located⟩ := Option.bind_eq_some_iff.mp located
    obtain ⟨directory, same⟩ := Option.ite_none_right_eq_some.mp located
    exact ⟨parent, resolved, directory, (Option.some.inj same).symm⟩
  · rintro ⟨parent, resolved, directory, rfl⟩
    rw [resolved, Option.bind_some, if_pos directory]

/-- `rm -rf` leaves nothing at its operand. -/
theorem absent_of_removeAll {ok : Bool} {keep : Path → Bool}
    (removed : removeAll ok keep (above ++ [name]) tree = (.success, next)) :
    Absent (above ++ [name]) next := by
  intro place located
  unfold removeAll at removed
  split at removed
  · simp at removed
  · split at removed
    · rename_i old found
      obtain ⟨status, rfl⟩ := Prod.mk.inj removed
      obtain rfl : ok = true := by
        cases ok
        · contradiction
        · rfl
      obtain ⟨parent, resolved, directory, rfl⟩ := locate_concat_eq_some.mp located
      have grows := remove_extends tree old (if true then fun _ => false else keep)
      have before : tree.locate (above ++ [name]) = some (parent ++ [name]) :=
        locate_concat_eq_some.mpr ⟨parent, resolve_extends grows directory resolved,
          (grows parent).1 directory, rfl⟩
      obtain rfl : old = parent ++ [name] := Option.some.inj (found.symm.trans before)
      exact node_remove_self tree (by simp)
    · rename_i missing
      obtain ⟨_, rfl⟩ := Prod.mk.inj removed
      rw [missing] at located
      contradiction

/-- A directory that has been made is where its path leads, and is empty. -/
theorem resolve_made {place : Path} {mode : Nat} (plain : Plain name)
    (located : tree.locate (above ++ [name]) = some place) (missing : tree.node place = none)
    (made : tree.set place (.directory mode) = some next) :
    next.resolve (above ++ [name]) = some place ∧ next.holdsDirectory place = true ∧
      ∀ rest, rest ≠ [] → next.node (place ++ rest) = none := by
  have unlinked : tree.holdsLink place = false := by simp [holdsLink, missing]
  have grows := extends_set made unlinked
  obtain ⟨parent, resolved, directory, rfl⟩ := locate_concat_eq_some.mp located
  have there : next.node (parent ++ [name]) = some (.directory mode) := by
    rw [node_set made, if_pos rfl]
  refine ⟨?_, holdsDirectory_iff.mpr ⟨mode, there⟩, ?_⟩
  · apply walk_continue ((grows parent).1 directory) _ (resolve_extends grows directory resolved)
    intro follow
    rw [walkWith_cons plain, there, walkWith_nil]
  · have nothing : ∀ rest, tree.node (parent ++ [name] ++ rest) = none := by
      intro rest
      induction rest using List.reverseRecOn with
      | nil => rw [List.append_nil, missing]
      | append_singleton rest other ih =>
          by_contra present
          rw [← List.append_assoc] at present
          have above := tree.closed _ _ present
          rw [ih] at above
          contradiction
    intro rest nonempty
    rw [node_set made, if_neg (by simpa using nonempty)]
    exact nothing rest

/-- Making a directory above a path from which nothing stands leaves nothing
there. -/
theorem Absent.makeDirectory {prior rest : Path} {mode : Nat} (plain : ∀ other ∈ rest, Plain other)
    (plainName : Plain name) (absent : Absent (prior ++ [name] ++ rest ++ [last]) tree)
    (made : tree.makeDirectory mode (prior ++ [name]) = some next) :
    Absent (prior ++ [name] ++ rest ++ [last]) next := by
  unfold LinkTree.makeDirectory at made
  split at made
  · cases made
    exact absent
  · obtain ⟨place, located, made⟩ := Option.bind_eq_some_iff.mp made
    split at made
    · rename_i missing
      rw [Option.isNone_iff_eq_none] at missing
      obtain ⟨resolved, directory, empty⟩ := resolve_made plainName located missing made
      intro target found
      obtain ⟨parent, leads, isDirectory, rfl⟩ := locate_concat_eq_some.mp found
      rcases rest with _ | ⟨first, rest⟩
      · rw [List.append_nil, resolved] at leads
        obtain rfl := Option.some.inj leads
        exact empty [last] (by simp)
      · obtain ⟨base, reached, _, follow, onward⟩ :=
          walk_split (by simp) next.holdsDirectory_nil next.holdsDirectory_nil leads
        obtain rfl : place = base := Option.some.inj (resolved.symm.trans reached)
        rw [walkWith_cons (plain first (by simp)), empty [first] (by simp)] at onward
        obtain ⟨_, same⟩ := Option.ite_none_right_eq_some.mp onward
        obtain rfl := Option.some.inj same
        rw [holdsDirectory, empty [first] (by simp)] at isDirectory
        contradiction
    · contradiction

/-- Where nothing stood, `mkdir` makes an empty directory. -/
theorem Absent.made {mode : Nat} (plain : Plain name) (absent : Absent (above ++ [name]) tree)
    (made : tree.makeDirectory mode (above ++ [name]) = some next) :
    ∃ place, next.resolve (above ++ [name]) = some place ∧ next.holdsDirectory place = true ∧
      ∀ rest, rest ≠ [] → next.node (place ++ rest) = none := by
  unfold LinkTree.makeDirectory at made
  split at made
  · rename_i isDirectory
    obtain ⟨place, resolved, directory⟩ := (Option.any_eq_true _ _).mp isDirectory
    obtain ⟨base, reached, held, follow, onward⟩ :=
      walk_split (by simp) tree.holdsDirectory_nil tree.holdsDirectory_nil resolved
    have missing := absent _ (locate_concat_eq_some.mpr ⟨base, reached, held, rfl⟩)
    rw [walkWith_cons plain, missing] at onward
    obtain ⟨_, same⟩ := Option.ite_none_right_eq_some.mp onward
    obtain rfl := Option.some.inj same
    rw [holdsDirectory, missing] at directory
    contradiction
  · obtain ⟨place, located, made⟩ := Option.bind_eq_some_iff.mp made
    split at made
    · rename_i missing
      rw [Option.isNone_iff_eq_none] at missing
      exact ⟨place, resolve_made plain located missing made⟩
    · contradiction

end Fresh

end LinkTree

end AqjOs.Files
