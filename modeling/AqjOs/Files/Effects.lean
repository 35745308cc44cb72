import AqjOs.Files.Coreutils

/-!
# Changes of one node

In a tree where every operand means itself, a command changes each node on its
own, and a script is a list of changes for each path.  Whether running it twice
is running it once can then be decided path by path: some change forgets what was
there, or all of them are of one style and each leaves the others' work alone.
-/

namespace AqjOs.Files

universe u

/-- What happens to the node at one path. -/
abbrev Change (κ : Type u) := Option (Node κ) → Option (Node κ)

namespace Change

variable {κ : Type u}

/-- Make a node where there is none. -/
def create (new : Node κ) : Change κ
  | none => some new
  | some old => some old

/-- Copy a file, and change the mode that the copy ends up with. -/
def put (content : κ) (mode : Nat) (change : Nat → Nat) : Change κ
  | none => some (.file content (change mode))
  | some (.file _ kept) => some (.file content (change kept))
  | other => other

/-- Change the mode of a file. -/
def chmod (change : Nat → Nat) : Change κ
  | some (.file content mode) => some (.file content (change mode))
  | other => other

/-- Change the content of a file. -/
def edit (change : κ → κ) : Change κ
  | some (.file content mode) => some (.file (change content) mode)
  | other => other

/-- Put a node in the place of whatever is there. -/
def replace (new : Node κ) : Change κ :=
  fun _ => some new

/-- Nothing is removed. -/
def Keeps (change : Change κ) : Prop :=
  ∀ node, node ≠ none → change node ≠ none

theorem keeps_id : Keeps (id : Change κ) :=
  fun _ present => present

theorem keeps_create (new : Node κ) : Keeps (create new) := by
  rintro (_ | old) present
  · contradiction
  · exact Option.some_ne_none _

theorem keeps_put (content : κ) (mode : Nat) (change : Nat → Nat) :
    Keeps (put content mode change) := by
  rintro (_ | (kept | ⟨old, kept⟩ | target)) present
  · contradiction
  · exact Option.some_ne_none _
  · exact Option.some_ne_none _
  · exact Option.some_ne_none _

theorem keeps_chmod (change : Nat → Nat) : Keeps (chmod change : Change κ) := by
  rintro (_ | (kept | ⟨old, kept⟩ | target)) present
  · contradiction
  · exact Option.some_ne_none _
  · exact Option.some_ne_none _
  · exact Option.some_ne_none _

theorem keeps_edit (change : κ → κ) : Keeps (edit change) := by
  rintro (_ | (kept | ⟨old, kept⟩ | target)) present
  · contradiction
  · exact Option.some_ne_none _
  · exact Option.some_ne_none _
  · exact Option.some_ne_none _

theorem keeps_replace (new : Node κ) : Keeps (replace new) :=
  fun _ _ => Option.some_ne_none _

/-- Several changes, one after another. -/
def all (changes : List (Change κ)) : Change κ :=
  fun node => changes.foldl (fun node change => change node) node

@[simp]
theorem all_nil (node : Option (Node κ)) : all [] node = node :=
  rfl

@[simp]
theorem all_cons (change : Change κ) (changes : List (Change κ)) (node : Option (Node κ)) :
    all (change :: changes) node = all changes (change node) :=
  rfl

theorem all_append (first second : List (Change κ)) (node : Option (Node κ)) :
    all (first ++ second) node = all second (all first node) :=
  List.foldl_append

section Settling

variable {possible : Option (Node κ) → Prop} {changes : List (Change κ)}

theorem all_possible (closed : ∀ change ∈ changes, ∀ node, possible node → possible (change node))
    {node : Option (Node κ)} (start : possible node) : possible (all changes node) := by
  induction changes generalizing node with
  | nil => exact start
  | cons change changes inductionHypothesis =>
      exact inductionHypothesis (fun other member => closed other (by simp [member]))
        (closed change (by simp) node start)

/-- The change leaves the same behind, whatever was there. -/
def Forgets (possible : Option (Node κ) → Prop) (change : Change κ) : Prop :=
  ∀ node other, possible node → possible other → change node = change other

theorem all_forgets (closed : ∀ change ∈ changes, ∀ node, possible node → possible (change node))
    {change : Change κ} (member : change ∈ changes) (forgets : Forgets possible change) :
    Forgets possible (all changes) := by
  intro node other possibleNode possibleOther
  induction changes generalizing node other with
  | nil => contradiction
  | cons first rest inductionHypothesis =>
      have closedRest : ∀ change ∈ rest, ∀ node, possible node → possible (change node) :=
        fun other member => closed other (by simp [member])
      rcases List.mem_cons.mp member with rfl | later
      · rw [all_cons, all_cons, forgets node other possibleNode possibleOther]
      · exact inductionHypothesis closedRest later _ _ (closed first (by simp) node possibleNode)
          (closed first (by simp) other possibleOther)

/-- What one change has settled, the other does not unsettle. -/
def Respects (possible : Option (Node κ) → Prop) (second first : Change κ) : Prop :=
  ∀ node, possible node → first node = node → first (second node) = second node

theorem all_fixed (closed : ∀ change ∈ changes, ∀ node, possible node → possible (change node))
    {first : Change κ} (respects : ∀ second ∈ changes, Respects possible second first)
    {node : Option (Node κ)} (start : possible node) (fixed : first node = node) :
    first (all changes node) = all changes node := by
  induction changes generalizing node with
  | nil => exact fixed
  | cons second rest inductionHypothesis =>
      apply inductionHypothesis (fun other member => closed other (by simp [member]))
        (fun other member => respects other (by simp [member]))
        (closed second (by simp) node start)
      exact respects second (by simp) node start fixed

/-- Changes that respect each other are settled by one pass. -/
theorem all_settled (closed : ∀ change ∈ changes, ∀ node, possible node → possible (change node))
    (idempotent : ∀ change ∈ changes, ∀ node, possible node → change (change node) = change node)
    (respects : ∀ first ∈ changes, ∀ second ∈ changes, Respects possible second first)
    {node : Option (Node κ)} (start : possible node) :
    ∀ change ∈ changes, change (all changes node) = all changes node := by
  induction changes generalizing node with
  | nil =>
      intro change member
      contradiction
  | cons first rest inductionHypothesis =>
      have closedRest : ∀ change ∈ rest, ∀ node, possible node → possible (change node) :=
        fun other member => closed other (by simp [member])
      have next := closed first (by simp) node start
      intro change member
      rcases List.mem_cons.mp member with rfl | later
      · apply all_fixed closedRest _ next (idempotent change (by simp) node start)
        intro second inRest
        exact respects change (by simp) second (by simp [inRest])
      · apply inductionHypothesis closedRest _ _ next change later
        · exact fun other inRest => idempotent other (by simp [inRest])
        · exact fun first inRest second alsoInRest =>
            respects first (by simp [inRest]) second (by simp [alsoInRest])

theorem all_of_fixed {node : Option (Node κ)}
    (fixed : ∀ change ∈ changes, change node = node) : all changes node = node := by
  induction changes with
  | nil => rfl
  | cons first rest inductionHypothesis =>
      rw [all_cons, fixed first (by simp)]
      exact inductionHypothesis fun change member => fixed change (by simp [member])

end Settling

/-! ## Styles -/

/-- The changes that may meet at one path: directories made where they are
missing, copies of one text, one change of mode, or one edit. -/
inductive Style (κ : Type u)
  | made
  | text (content : κ) (change : Nat → Nat)
  | mode (change : Nat → Nat)
  | edited (change : κ → κ)

/-- The change does nothing to the nodes that can be there. -/
def Idle (possible : Option (Node κ) → Prop) (change : Change κ) : Prop :=
  ∀ node, possible node → change node = node

/-- On the nodes that can be there, the change is one of the style. -/
def Style.Has (possible : Option (Node κ) → Prop) (style : Style κ) (change : Change κ) : Prop :=
  Idle possible change ∨
    match style with
    | made => ∃ new, ∀ node, possible node → change node = create new node
    | text content bits => ∃ mode final, (final = id ∨ final = bits) ∧
        ∀ node, possible node → change node = put content mode final node
    | mode bits => ∀ node, possible node → change node = chmod bits node
    | edited rewrite => ∀ node, possible node → change node = edit rewrite node

/-- Repeating a change of the style would change nothing. -/
def Style.Stable (possible : Option (Node κ) → Prop) : Style κ → Prop
  | made => True
  | text _ bits => ∀ mode, bits (bits mode) = bits mode
  | mode bits => ∀ mode, bits (bits mode) = bits mode
  | edited change => ∀ content mode, possible (some (.file content mode)) →
      change (change content) = change content

section Styles

variable {possible : Option (Node κ) → Prop} {style : Style κ}

theorem Style.Has.idempotent {change : Change κ} (has : style.Has possible change)
    (stable : style.Stable possible)
    (closed : ∀ node, possible node → possible (change node)) {node : Option (Node κ)}
    (start : possible node) : change (change node) = change node := by
  rcases has with idle | has
  · rw [idle node start, idle node start]
  · cases style with
    | made =>
        obtain ⟨new, equal⟩ := has
        rw [equal _ (closed node start), equal node start]
        cases node <;> rfl
    | text content bits =>
        obtain ⟨mode, final, which, equal⟩ := has
        have twice : ∀ mode, final (final mode) = final mode := by
          rcases which with rfl | rfl
          · exact fun _ => rfl
          · exact stable
        rw [equal _ (closed node start), equal node start]
        rcases node with _ | (kept | ⟨old, kept⟩ | target) <;> simp [put, twice]
    | mode bits =>
        have twice : ∀ mode, bits (bits mode) = bits mode := stable
        rw [has _ (closed node start), has node start]
        rcases node with _ | (kept | ⟨old, kept⟩ | target) <;> simp [chmod, twice]
    | edited rewrite =>
        rw [has _ (closed node start), has node start]
        rcases node with _ | (kept | ⟨old, kept⟩ | target) <;> simp [edit]
        exact stable old kept start

theorem Style.Has.respects {first second : Change κ} (hasFirst : style.Has possible first)
    (hasSecond : style.Has possible second) (stable : style.Stable possible)
    (closed : ∀ node, possible node → possible (second node)) :
    Respects possible second first := by
  intro node start fixed
  rcases hasSecond with idle | hasSecond
  · rw [idle node start, fixed]
  · rcases hasFirst with idle | hasFirst
    · exact idle _ (closed node start)
    · cases style with
      | made =>
          obtain ⟨new, equalFirst⟩ := hasFirst
          obtain ⟨other, equalSecond⟩ := hasSecond
          rw [equalFirst _ (closed node start), equalSecond node start]
          cases node <;> rfl
      | text content bits =>
          obtain ⟨mode, final, whichFirst, equalFirst⟩ := hasFirst
          obtain ⟨mode', final', whichSecond, equalSecond⟩ := hasSecond
          rw [equalFirst node start] at fixed
          rw [equalFirst _ (closed node start), equalSecond node start]
          rcases node with _ | (kept | ⟨old, kept⟩ | target)
          · simp [put] at fixed
          · rfl
          · simp only [put, Option.some.injEq, Node.file.injEq] at fixed ⊢
            rcases whichFirst with rfl | rfl
            · simp
            · rcases whichSecond with rfl | rfl
              · simp [fixed.2]
              · simp [stable kept]
          · rfl
      | mode bits =>
          have twice : ∀ mode, bits (bits mode) = bits mode := stable
          rw [hasFirst _ (closed node start), hasSecond node start]
          rcases node with _ | (kept | ⟨old, kept⟩ | target) <;> simp [chmod, twice]
      | edited rewrite =>
          rw [hasFirst _ (closed node start), hasSecond node start]
          rcases node with _ | (kept | ⟨old, kept⟩ | target) <;> simp [edit]
          exact stable old kept start

/-- One pass over the changes of a path settles it, if one of them forgets what
was there or all of them are of one style. -/
theorem all_idempotent {changes : List (Change κ)}
    (closed : ∀ change ∈ changes, ∀ node, possible node → possible (change node))
    (stable : style.Stable possible)
    (settles : ∀ change ∈ changes, Forgets possible change ∨ style.Has possible change)
    {node : Option (Node κ)} (start : possible node) :
    all changes (all changes node) = all changes node := by
  by_cases forgetful : ∃ change ∈ changes, Forgets possible change
  · obtain ⟨change, member, forgets⟩ := forgetful
    exact all_forgets closed member forgets _ _ (all_possible closed start) start
  · have styled : ∀ change ∈ changes, style.Has possible change := by
      intro change member
      rcases settles change member with forgets | has
      · exact absurd ⟨change, member, forgets⟩ forgetful
      · exact has
    apply all_of_fixed
    apply all_settled closed _ _ start
    · intro change member node possibleNode
      exact (styled change member).idempotent stable (closed change member) possibleNode
    · intro first firstMember second secondMember
      exact (styled first firstMember).respects (styled second secondMember) stable
        (closed second secondMember)

end Styles

end Change

end AqjOs.Files
