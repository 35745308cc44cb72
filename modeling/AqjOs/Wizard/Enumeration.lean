import AqjOs.Wizard.Listing
import Mathlib.Data.List.TakeWhile

/-!
# What disk enumeration lists

Each branch lists every disk once.  The handler goes on with what the body has
entered before it raised, and so a disk in front of the one whose model is null is
listed by both.  Entries begin with the device path, which is how an entry tells
its device.
-/

namespace AqjOs.Wizard

open AqjOs.Text

/-- The devices of type `disk`. -/
def disksOf (devices : List BlockDevice) : List BlockDevice :=
  devices.filter fun device => device.type = "disk"

/-- Every disk has exactly one entry, which leads to its path, and every entry
is the entry of a disk. -/
structure ListsOnce (devices : List BlockDevice) (scan : Scan) : Prop where
  nodup : scan.disks.Nodup
  keys : scan.Agrees
  once : ∀ device ∈ disksOf devices, ∃! entry, entry ∈ scan.disks ∧
    scan.disksInfo.lookup entry = some (devicePath device.name)
  only : ∀ entry ∈ scan.disks, ∃ device ∈ disksOf devices,
    scan.disksInfo.lookup entry = some (devicePath device.name)

/-- A visit that meets these devices: the JSON output, if it is read at all,
lists them, and so does the plain listing.  The kernel gives no name twice. -/
structure Probe.Describes (probe : Probe) (devices : List BlockDevice) : Prop where
  json : ∀ read, probe.json = some read → read = devices
  listing : ∃ text, probe.listing = some text ∧ Tabulates text devices
  distinct : (devices.map BlockDevice.name).Nodup

/-- The body raises before it has entered anything, or not at all: the JSON
output is not read, no disk has a null model, or the first disk has one. -/
def Probe.Unbroken (probe : Probe) : Prop :=
  ∀ devices, probe.json = some devices →
    (∀ device ∈ disksOf devices, device.model ≠ .null) ∨
      (disksOf devices).head?.any fun device => device.model = .null

/-! ## Entries -/

/-- The entry that the body makes of a disk whose model is not null. -/
def jsonEntry (device : BlockDevice) : String :=
  displayString (devicePath device.name) device.size (device.model.label.getD "")

/-- The entry that the handler makes of a disk. -/
def plainEntry (device : BlockDevice) : String :=
  displayString (devicePath device.name) device.size "Storage Drive"

/-- Append the entries of several devices. -/
def Scan.addAll (scan : Scan) (entry : BlockDevice → String) (devices : List BlockDevice) :
    Scan :=
  devices.foldl (fun scan device => scan.add (entry device) (devicePath device.name)) scan

/-- The disks that the body enters before it raises. -/
def readable (devices : List BlockDevice) : List BlockDevice :=
  (disksOf devices).takeWhile fun device => device.model ≠ .null

theorem label_eq_none_iff {model : Model} : model.label = none ↔ model = .null := by
  cases model <;> simp [Model.label]

theorem scanJson_eq (scan : Scan) (devices : List BlockDevice) :
    scanJson scan devices =
      (scan.addAll jsonEntry (readable devices),
        (disksOf devices).any fun device => device.model = .null) := by
  induction devices generalizing scan with
  | nil => rfl
  | cons device devices ih =>
      by_cases disk : device.type = "disk"
      · have disks : disksOf (device :: devices) = device :: disksOf devices := by
          simp [disksOf, disk]
        rw [scanJson, if_pos disk, readable, disks]
        cases label : device.model.label with
        | none =>
            have null := label_eq_none_iff.mp label
            simp [null, Scan.addAll]
        | some text =>
            have notNull : device.model ≠ .null := by
              intro null
              rw [label_eq_none_iff.mpr null] at label
              cases label
            simp only [ih]
            simp [notNull, Scan.addAll, jsonEntry, label, readable]
      · have disks : disksOf (device :: devices) = disksOf devices := by
          simp [disksOf, disk]
        rw [scanJson, if_neg disk, ih, readable, readable, disks]

theorem scanListing_of_tabulates {listing : String} {devices : List BlockDevice}
    (tabulates : Tabulates listing devices) (scan : Scan) :
    scanListing scan listing = scan.addAll plainEntry (disksOf devices) := by
  rw [scanListing_eq, tabulates.lineWords]
  clear tabulates
  induction devices generalizing scan with
  | nil => rfl
  | cons device devices ih =>
      rw [List.map_cons, List.foldl_cons, ih, scanWords]
      by_cases disk : device.type = "disk"
      · simp [disksOf, disk, Scan.addAll, plainEntry]
      · have other : device.type.toList ≠ "disk".toList := by
          intro same
          exact disk (String.toList_inj.mp same)
        rw [if_neg other]
        simp [disksOf, disk]

/-! ## Paths of entries -/

/-- The path with which an entry begins. -/
def entryPath (entry : String) : String :=
  String.ofList (entry.toList.takeWhile fun character => !isSpace character)

theorem devicePath_injective : Function.Injective devicePath := by
  intro first second same
  have characters := congrArg String.toList same
  rw [devicePath, devicePath, String.toList_append, String.toList_append] at characters
  exact String.toList_inj.mp (List.append_cancel_left characters)

theorem entryPath_displayString {name : String} (solid : Solid isSpace name.toList)
    (size label : String) :
    entryPath (displayString (devicePath name) size label) = devicePath name := by
  have directory : Solid isSpace "/dev/".toList := by decide
  have path : ∀ character ∈ (devicePath name).toList, (!isSpace character) = true := by
    intro character member
    rw [devicePath, String.toList_append, List.mem_append] at member
    rcases member with inDirectory | inName
    · rw [directory character inDirectory]
      rfl
    · rw [solid character inName]
      rfl
  have space : isSpace ' ' = true := by decide
  rw [entryPath, displayString, String.toList_append, String.toList_append,
    String.toList_append, String.toList_append, List.append_assoc, List.append_assoc,
    List.append_assoc, List.takeWhile_append_of_pos path]
  simp [space]

/-- Every entry leads to the path with which it begins. -/
def Scan.Telling (scan : Scan) : Prop :=
  ∀ entry ∈ scan.disks, scan.disksInfo.lookup entry = some (entryPath entry)

theorem Scan.telling_empty : Scan.empty.Telling := by
  intro entry member
  cases member

theorem Scan.Telling.add {scan : Scan} (telling : scan.Telling) {entry path : String}
    (begins : entryPath entry = path) : (scan.add entry path).Telling := by
  intro other member
  rw [Scan.add] at member ⊢
  by_cases same : other = entry
  · rw [same, AList.lookup_insert, begins]
  · rw [AList.lookup_insert_ne same]
    apply telling
    rcases List.mem_append.mp member with earlier | added
    · exact earlier
    · exact absurd (List.mem_singleton.mp added) same

theorem Scan.Telling.addAll {scan : Scan} (telling : scan.Telling)
    {entry : BlockDevice → String} {devices : List BlockDevice}
    (begins : ∀ device ∈ devices, entryPath (entry device) = devicePath device.name) :
    (scan.addAll entry devices).Telling := by
  induction devices generalizing scan with
  | nil => exact telling
  | cons device devices ih =>
      exact ih (telling.add (begins device List.mem_cons_self))
        fun other member => begins other (List.mem_cons_of_mem device member)

theorem Scan.addAll_disks (scan : Scan) (entry : BlockDevice → String)
    (devices : List BlockDevice) :
    (scan.addAll entry devices).disks = scan.disks ++ devices.map entry := by
  induction devices generalizing scan with
  | nil => exact (List.append_nil _).symm
  | cons device devices ih =>
      rw [Scan.addAll, List.foldl_cons, ← Scan.addAll, ih, Scan.add, List.append_assoc]
      rfl

/-! ## Once and twice -/

/-- One entry for each disk, with its path in front, is one entry for each disk. -/
theorem listsOnce_of_map {devices : List BlockDevice} {scan : Scan}
    {entry : BlockDevice → String} (distinct : (devices.map BlockDevice.name).Nodup)
    (begins : ∀ device ∈ devices, entryPath (entry device) = devicePath device.name)
    (agrees : scan.Agrees) (telling : scan.Telling)
    (listed : scan.disks = (disksOf devices).map entry) : ListsOnce devices scan := by
  have inDevices : ∀ device ∈ disksOf devices, device ∈ devices :=
    fun device member => List.mem_of_mem_filter member
  have sameDevice : ∀ first ∈ disksOf devices, ∀ second ∈ disksOf devices,
      devicePath first.name = devicePath second.name → first = second := by
    intro first firstMember second secondMember same
    exact List.inj_on_of_nodup_map distinct (inDevices first firstMember)
      (inDevices second secondMember) (devicePath_injective same)
  have leads : ∀ device ∈ disksOf devices,
      scan.disksInfo.lookup (entry device) = some (devicePath device.name) := by
    intro device member
    have inList : entry device ∈ scan.disks := by
      rw [listed]
      exact List.mem_map_of_mem member
    rw [telling _ inList, begins device (inDevices device member)]
  constructor
  · rw [listed]
    apply List.Nodup.map_on
    · intro first firstMember second secondMember same
      apply sameDevice first firstMember second secondMember
      rw [← begins first (inDevices first firstMember), same,
        begins second (inDevices second secondMember)]
    · exact (List.Nodup.of_map _ distinct).filter _
  · exact agrees
  · intro device member
    refine ⟨entry device, ⟨?_, leads device member⟩, ?_⟩
    · rw [listed]
      exact List.mem_map_of_mem member
    · rintro other ⟨inList, path⟩
      rw [listed] at inList
      obtain ⟨source, sourceMember, rfl⟩ := List.mem_map.mp inList
      rw [leads source sourceMember] at path
      rw [sameDevice source sourceMember device member (Option.some.inj path)]
  · intro other inList
    rw [listed] at inList
    obtain ⟨source, sourceMember, rfl⟩ := List.mem_map.mp inList
    exact ⟨source, sourceMember, leads source sourceMember⟩

/-- A disk that both branches have entered is not listed once. -/
theorem not_listsOnce_of_both {devices early : List BlockDevice} {scan : Scan}
    (begins : ∀ device ∈ disksOf devices, entryPath (plainEntry device) = devicePath device.name)
    (earlyBegins : ∀ device ∈ early, entryPath (jsonEntry device) = devicePath device.name)
    (telling : scan.Telling)
    (listed : scan.disks = early.map jsonEntry ++ (disksOf devices).map plainEntry)
    {device : BlockDevice} (isEarly : device ∈ early) (isDisk : device ∈ disksOf devices) :
    ¬ ListsOnce devices scan := by
  intro lists
  have first : jsonEntry device ∈ early.map jsonEntry := List.mem_map_of_mem isEarly
  have second : plainEntry device ∈ (disksOf devices).map plainEntry :=
    List.mem_map_of_mem isDisk
  have firstListed : jsonEntry device ∈ scan.disks := by
    rw [listed]
    exact List.mem_append_left _ first
  have secondListed : plainEntry device ∈ scan.disks := by
    rw [listed]
    exact List.mem_append_right _ second
  have firstLeads := telling _ firstListed
  have secondLeads := telling _ secondListed
  rw [earlyBegins device isEarly] at firstLeads
  rw [begins device isDisk] at secondLeads
  have same : jsonEntry device = plainEntry device :=
    (lists.once device isDisk).unique ⟨firstListed, firstLeads⟩ ⟨secondListed, secondLeads⟩
  have nodup := lists.nodup
  rw [listed] at nodup
  rw [same] at first
  exact List.disjoint_of_nodup_append nodup first second

section Branches

variable {probe : Probe} {devices : List BlockDevice}

theorem Probe.Describes.begins (describes : probe.Describes devices)
    (label : BlockDevice → String) :
    ∀ device ∈ devices,
      entryPath (displayString (devicePath device.name) device.size (label device)) =
        devicePath device.name := by
  obtain ⟨text, -, tabulates⟩ := describes.listing
  intro device member
  exact entryPath_displayString (tabulates.name_solid member) device.size (label device)

/-- The handler enters every disk. -/
theorem Probe.Describes.plainBranch (describes : probe.Describes devices) (scan : Scan) :
    Wizard.plainBranch probe scan = scan.addAll plainEntry (disksOf devices) := by
  obtain ⟨text, listing, tabulates⟩ := describes.listing
  rw [Wizard.plainBranch, listing]
  exact scanListing_of_tabulates tabulates scan

theorem readable_eq_nil_iff :
    readable devices = [] ↔
      disksOf devices = [] ∨
        (disksOf devices).head?.any (fun device => device.model = .null) = true := by
  rw [readable]
  cases disksOf devices with
  | nil => simp
  | cons device rest => by_cases null : device.model = .null <;> simp [null]

theorem mem_disksOf_of_readable {device : BlockDevice} (member : device ∈ readable devices) :
    device ∈ disksOf devices :=
  (List.takeWhile_prefix _).subset member

/-- The outcome of a visit whose JSON output is not read. -/
theorem listsOnce_of_unread (describes : probe.Describes devices) (unread : probe.json = none) :
    ListsOnce devices (getAvailableDisks probe) := by
  have outcome : getAvailableDisks probe = Scan.empty.addAll plainEntry (disksOf devices) := by
    rw [getAvailableDisks, jsonBranch, unread]
    exact describes.plainBranch .empty
  have begins := describes.begins fun _ => "Storage Drive"
  apply listsOnce_of_map describes.distinct begins (getAvailableDisks_agrees probe)
  · rw [outcome]
    exact Scan.telling_empty.addAll fun device member =>
      begins device (List.mem_of_mem_filter member)
  · rw [outcome, Scan.addAll_disks]
    rfl

/-- The outcome of a visit in which the body does not raise. -/
theorem listsOnce_of_noNull (describes : probe.Describes devices)
    (read : probe.json = some devices)
    (noNull : ∀ device ∈ disksOf devices, device.model ≠ .null) :
    ListsOnce devices (getAvailableDisks probe) := by
  have all : readable devices = disksOf devices := by
    rw [readable, List.takeWhile_eq_self_iff]
    simpa using noNull
  have quiet : (disksOf devices).any (fun device => device.model = .null) = false := by
    simpa using noNull
  have outcome : getAvailableDisks probe = Scan.empty.addAll jsonEntry (disksOf devices) := by
    rw [getAvailableDisks, jsonBranch, read]
    simp only [scanJson_eq, quiet, all]
  have begins := describes.begins fun device => device.model.label.getD ""
  apply listsOnce_of_map describes.distinct begins (getAvailableDisks_agrees probe)
  · rw [outcome]
    exact Scan.telling_empty.addAll fun device member =>
      begins device (List.mem_of_mem_filter member)
  · rw [outcome, Scan.addAll_disks]
    rfl

/-- The outcome of a visit in which the body raises at a disk. -/
theorem getAvailableDisks_of_null (describes : probe.Describes devices)
    (read : probe.json = some devices)
    (raised : (disksOf devices).any (fun device => device.model = .null) = true) :
    getAvailableDisks probe =
      (Scan.empty.addAll jsonEntry (readable devices)).addAll plainEntry (disksOf devices) := by
  rw [getAvailableDisks, jsonBranch, read]
  simp only [scanJson_eq, raised]
  exact describes.plainBranch _

theorem listsOnce_iff_of_null (describes : probe.Describes devices)
    (read : probe.json = some devices)
    (raised : (disksOf devices).any (fun device => device.model = .null) = true) :
    ListsOnce devices (getAvailableDisks probe) ↔ readable devices = [] := by
  have outcome := getAvailableDisks_of_null describes read raised
  have plainBegins := describes.begins fun _ => "Storage Drive"
  have jsonBegins := describes.begins fun device => device.model.label.getD ""
  have telling : (getAvailableDisks probe).Telling := by
    rw [outcome]
    apply Scan.Telling.addAll
    · exact Scan.telling_empty.addAll fun device member =>
        jsonBegins device (List.mem_of_mem_filter (mem_disksOf_of_readable member))
    · intro device member
      exact plainBegins device (List.mem_of_mem_filter member)
  have listed : (getAvailableDisks probe).disks =
      (readable devices).map jsonEntry ++ (disksOf devices).map plainEntry := by
    rw [outcome, Scan.addAll_disks, Scan.addAll_disks]
    rfl
  constructor
  · intro lists
    by_contra entered
    obtain ⟨device, isEarly⟩ := List.exists_mem_of_ne_nil _ entered
    refine not_listsOnce_of_both ?_ ?_ telling listed isEarly
      (mem_disksOf_of_readable isEarly) lists
    · intro other member
      exact plainBegins other (List.mem_of_mem_filter member)
    · intro other member
      exact jsonBegins other (List.mem_of_mem_filter (mem_disksOf_of_readable member))
  · intro nothing
    apply listsOnce_of_map describes.distinct plainBegins (getAvailableDisks_agrees probe) telling
    rw [listed, nothing]
    rfl

end Branches

/-- A visit lists every disk once if and only if the body raises before it has
entered anything, or not at all. -/
theorem listsOnce_iff_unbroken {probe : Probe} {devices : List BlockDevice}
    (describes : probe.Describes devices) :
    ListsOnce devices (getAvailableDisks probe) ↔ probe.Unbroken := by
  cases read : probe.json with
  | none =>
      have unbroken : probe.Unbroken := by
        intro other readOther
        rw [read] at readOther
        cases readOther
      exact iff_of_true (listsOnce_of_unread describes read) unbroken
  | some found =>
      obtain rfl := describes.json found read
      have unbroken_iff : probe.Unbroken ↔
          (∀ device ∈ disksOf found, device.model ≠ .null) ∨
            (disksOf found).head?.any (fun device => device.model = .null) = true := by
        constructor
        · intro unbroken
          exact unbroken found read
        · intro either other readOther
          rw [read] at readOther
          cases readOther
          exact either
      rw [unbroken_iff]
      cases raised : (disksOf found).any fun device => device.model = .null with
      | false =>
          have noNull : ∀ device ∈ disksOf found, device.model ≠ .null := by
            simpa using raised
          exact iff_of_true (listsOnce_of_noNull describes read noNull) (.inl noNull)
      | true =>
          have notAll : ¬ ∀ device ∈ disksOf found, device.model ≠ .null := by
            simpa using raised
          have some : disksOf found ≠ [] := by
            intro none
            rw [none] at raised
            cases raised
          rw [listsOnce_iff_of_null describes read raised, readable_eq_nil_iff,
            or_iff_right some, or_iff_right notAll]

/-- A disk with a model in front of one whose model is null. -/
def mixedDisks : List BlockDevice :=
  [⟨"sda", "1T", "disk", .text "Disk A"⟩, ⟨"vda", "20G", "disk", .null⟩]

/-- A visit that reads these devices from both outputs. -/
def mixedProbe (devices : List BlockDevice) (listing : String) : Probe :=
  ⟨some devices, some listing⟩

theorem mixedProbe_describes :
    (mixedProbe mixedDisks "sda 1T disk\nvda 20G disk\n").Describes mixedDisks := by
  constructor
  · intro read same
    exact (Option.some.inj same).symm
  · refine ⟨_, rfl, ["sda 1T disk".toList, "vda 20G disk".toList], by decide, ?_⟩
    exact .cons (by decide +kernel) (.cons (by decide +kernel) .nil)
  · decide

/-- The disk with a model is listed twice. -/
theorem mixedDisks_not_listsOnce :
    ¬ ∀ (probe : Probe) (devices : List BlockDevice), probe.Describes devices →
      ListsOnce devices (getAvailableDisks probe) := by
  intro lists
  have once := (lists _ _ mixedProbe_describes).once
    ⟨"sda", "1T", "disk", .text "Disk A"⟩ (by decide)
  obtain ⟨entry, -, only⟩ := once
  have modelled : "/dev/sda (1T) - Disk A" = entry := only _ (by decide +kernel)
  have plain : "/dev/sda (1T) - Storage Drive" = entry := only _ (by decide +kernel)
  rw [← plain] at modelled
  revert modelled
  decide

/-- In the other order every disk is listed once. -/
theorem reversedDisks_listsOnce :
    ListsOnce mixedDisks.reverse
      (getAvailableDisks (mixedProbe mixedDisks.reverse "vda  20G disk\nsda   1T disk\n")) := by
  refine (listsOnce_iff_unbroken ⟨?_, ?_, by decide⟩).mpr ?_
  · intro read same
    exact (Option.some.inj same).symm
  · refine ⟨_, rfl, ["vda  20G disk".toList, "sda   1T disk".toList], by decide, ?_⟩
    exact .cons (by decide +kernel) (.cons (by decide +kernel) .nil)
  · intro devices read
    cases Option.some.inj read
    right
    decide

end AqjOs.Wizard
