import Mathlib.Data.List.Basic

/-!
# Block devices and the installer's partition name

The table of block devices maps node names to whole disks or to partitions of
a disk, under Linux's naming rule.  `installer.sh` does not use that rule: it
appends `p1` to names that contain `nvme` and `1` to all others.
-/

namespace AqjOs.Installer

/-- What a block-device node stands for. -/
inductive DeviceNode
  | disk
  | partition (parent : String) (number : Nat)
  deriving DecidableEq, Repr

/-- Whether the last character of a device name is a decimal digit. -/
def endsInDigit (name : String) : Bool :=
  name.toList.getLast?.any Char.isDigit

/-- Linux's name of partition `number` of `disk`. -/
def partitionName (disk : String) (number : Nat) : String :=
  if endsInDigit disk then disk ++ "p" ++ toString number else disk ++ toString number

/-- The block-device nodes of a machine.  Every partition belongs to a whole
disk of the table and is named after it. -/
structure DeviceTable where
  node : String → Option DeviceNode
  named : ∀ name parent number, node name = some (.partition parent number) →
    node parent = some .disk ∧ 1 ≤ number ∧ name = partitionName parent number

namespace DeviceTable

/-- `[ -b name ]`. -/
def isBlock (table : DeviceTable) (name : String) : Bool :=
  (table.node name).isSome

/-- The node after the partition table of `disk` has been rewritten so that the
kernel sees the partitions `numbers` of it.  A node of another name is not
displaced by a new partition. -/
def nodeAfter (table : DeviceTable) (disk : String) (numbers : List Nat) (name : String) :
    Option DeviceNode :=
  match table.node name with
  | some (.partition parent number) =>
      if parent = disk ∧ number ∉ numbers then none else some (.partition parent number)
  | some .disk => some .disk
  | none =>
      if table.node disk = some .disk then
        (numbers.find? fun number => 1 ≤ number ∧ name = partitionName disk number).map
          (.partition disk)
      else
        none

theorem nodeAfter_of_disk {table : DeviceTable} {name : String}
    (whole : table.node name = some .disk) (disk : String) (numbers : List Nat) :
    table.nodeAfter disk numbers name = some .disk := by
  rw [nodeAfter, whole]

/-- Rewriting the partition table of `disk` only removes or adds partitions of
`disk`. -/
theorem nodeAfter_eq_some_cases {table : DeviceTable} {disk name : String}
    {numbers : List Nat} {node : DeviceNode}
    (after : table.nodeAfter disk numbers name = some node) :
    table.node name = some node ∨
      ∃ number, node = .partition disk number ∧ table.node disk = some .disk ∧
        1 ≤ number ∧ name = partitionName disk number := by
  unfold nodeAfter at after
  split at after
  · rename_i parent number before
    split at after
    · contradiction
    · exact Or.inl (before.trans after)
  · rename_i before
    exact Or.inl (before.trans after)
  · split at after
    · rename_i whole
      obtain ⟨number, found, rfl⟩ := Option.map_eq_some_iff.mp after
      have matching := List.find?_some found
      simp only [decide_eq_true_eq] at matching
      exact Or.inr ⟨number, rfl, whole, matching.1, matching.2⟩
    · contradiction

/-- The table after `sfdisk disk` has left the partitions `numbers`. -/
def repartition (table : DeviceTable) (disk : String) (numbers : List Nat) : DeviceTable where
  node := table.nodeAfter disk numbers
  named := by
    intro name parent number after
    rcases nodeAfter_eq_some_cases after with before | ⟨added, node_eq, whole, positive, name_eq⟩
    · obtain ⟨whole, positive, name_eq⟩ := table.named name parent number before
      exact ⟨nodeAfter_of_disk whole disk numbers, positive, name_eq⟩
    · cases node_eq
      exact ⟨nodeAfter_of_disk whole disk numbers, positive, name_eq⟩

/-- Whatever the node `name` is, it is no other device than a partition of
`disk`. -/
def OwnOrAbsent (table : DeviceTable) (disk name : String) : Prop :=
  ∀ node, table.node name = some node → ∃ number, node = .partition disk number

/-- Repartitioning `disk` neither makes a foreign node out of an own or absent
one nor removes a foreign node. -/
@[simp]
theorem ownOrAbsent_repartition (table : DeviceTable) (disk name : String)
    (numbers : List Nat) :
    (table.repartition disk numbers).OwnOrAbsent disk name ↔ table.OwnOrAbsent disk name := by
  constructor
  · intro after node before
    cases node with
    | disk => exact after .disk (nodeAfter_of_disk before disk numbers)
    | partition parent number =>
        by_cases own : parent = disk
        · exact ⟨number, by rw [own]⟩
        · apply after
          change table.nodeAfter disk numbers name = _
          rw [nodeAfter, before]
          simp [own]
  · intro before node after
    rcases nodeAfter_eq_some_cases after with unchanged | ⟨number, node_eq, _⟩
    · exact before node unchanged
    · exact ⟨number, node_eq⟩

end DeviceTable

/-- Whether a text contains a fixed string. -/
def containsText (pattern : List Char) : List Char → Bool
  | [] => pattern.isEmpty
  | character :: rest =>
      pattern.isPrefixOf (character :: rest) || containsText pattern rest

/-- `echo "${TARGET_DISK}" | grep -q "nvme"`. -/
def namesNvme (disk : String) : Bool :=
  containsText "nvme".toList disk.toList

/-- The installer's `ROOT_PART`; a `grep` that fails takes the second branch. -/
def rootPartition (grepWorks : Bool) (disk : String) : String :=
  if grepWorks && namesNvme disk then disk ++ "p1" else disk ++ "1"

end AqjOs.Installer
