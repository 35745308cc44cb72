import Mathlib.Data.List.AList

/-!
# Disk enumeration of the graphical installer

`get_available_disks` asks `lsblk` for a JSON description and falls back to its
plain listing when anything in the first branch raises.  Both branches fill the
same list and the same dictionary, so that what the first one has entered before
it raised is still there when the second one starts.
-/

namespace AqjOs.Wizard

/-- The `model` member of a device in the JSON output. -/
inductive Model
  | absent
  | null
  | text (model : String)
  deriving DecidableEq, Repr

/-- A device of the JSON output. -/
structure BlockDevice where
  name : String
  size : String
  type : String
  model : Model
  deriving DecidableEq, Repr

/-- What one visit of the disk page meets: the parsed JSON description, or
`none` if `lsblk -J` fails or prints no JSON, and the plain listing, or `none` if
that command fails. -/
structure Probe where
  json : Option (List BlockDevice)
  listing : Option String
  deriving DecidableEq, Repr

/-- The entries of the selection box and the dictionary `disks_info`. -/
structure Scan where
  disks : List String
  disksInfo : AList fun _ : String => String

/-- No entries yet. -/
def Scan.empty : Scan where
  disks := []
  disksInfo := ∅

/-- Append an entry and record its device path. -/
def Scan.add (scan : Scan) (display path : String) : Scan where
  disks := scan.disks ++ [display]
  disksInfo := scan.disksInfo.insert display path

/-! ## Python's string methods -/

/-- The characters that `str.strip` and `str.split` take as white space. -/
def isSpace (character : Char) : Bool :=
  let code := character.toNat
  (9 ≤ code && code ≤ 13) || (28 ≤ code && code ≤ 32) || code = 0x85 || code = 0xa0 ||
    code = 0x1680 || (0x2000 ≤ code && code ≤ 0x200a) || code = 0x2028 || code = 0x2029 ||
    code = 0x202f || code = 0x205f || code = 0x3000

/-- `text.strip()`, on characters. -/
def strip (text : List Char) : List Char :=
  ((text.dropWhile isSpace).reverse.dropWhile isSpace).reverse

/-- `text.split()`, on characters. -/
def split (text : List Char) : List (List Char) :=
  (text.splitOnP isSpace).filter fun word => !word.isEmpty

/-! ## The two branches -/

/-- `dev.get("model", "Generic Drive").strip() or "Generic Storage"`; `none` when
the member is null, which has no `strip`. -/
def Model.label : Model → Option String
  | absent => some "Generic Drive"
  | null => none
  | text model =>
      some (if strip model.toList = [] then "Generic Storage"
        else String.ofList (strip model.toList))

/-- The device path of a name. -/
def devicePath (name : String) : String :=
  "/dev/" ++ name

/-- An entry of the selection box. -/
def displayString (path size label : String) : String :=
  path ++ " (" ++ size ++ ") - " ++ label

/-- The loop over the JSON devices, with whether it has raised. -/
def scanJson (scan : Scan) : List BlockDevice → Scan × Bool
  | [] => (scan, false)
  | device :: devices =>
      if device.type = "disk" then
        match device.model.label with
        | none => (scan, true)
        | some label =>
            scanJson (scan.add (displayString (devicePath device.name) device.size label)
              (devicePath device.name)) devices
      else
        scanJson scan devices

/-- One line of the plain listing. -/
def scanLine (scan : Scan) (line : List Char) : Scan :=
  match split line with
  | name :: size :: type :: _ =>
      if type = "disk".toList then
        let path := devicePath (String.ofList name)
        scan.add (displayString path (String.ofList size) "Storage Drive") path
      else
        scan
  | _ => scan

/-- The loop over the plain listing. -/
def scanListing (scan : Scan) (listing : String) : Scan :=
  ((strip listing.toList).splitOn '\n').foldl scanLine scan

/-- The body of the outer `try`, with whether it has raised. -/
def jsonBranch (probe : Probe) : Scan × Bool :=
  match probe.json with
  | none => (.empty, true)
  | some devices => scanJson .empty devices

/-- The handler, which goes on with what the body has entered. -/
def plainBranch (probe : Probe) (scan : Scan) : Scan :=
  match probe.listing with
  | none => scan
  | some listing => scanListing scan listing

/-- `get_available_disks`. -/
def getAvailableDisks (probe : Probe) : Scan :=
  match jsonBranch probe with
  | (scan, false) => scan
  | (scan, true) => plainBranch probe scan

/-! ## Entries and keys -/

/-- The entries of the selection box are the keys of the dictionary. -/
def Scan.Agrees (scan : Scan) : Prop :=
  ∀ entry, entry ∈ scan.disks ↔ entry ∈ scan.disksInfo

theorem Scan.agrees_empty : Scan.empty.Agrees := by
  intro entry
  simp [Scan.empty, AList.notMem_empty]

theorem Scan.Agrees.add {scan : Scan} (agrees : scan.Agrees) (display path : String) :
    (scan.add display path).Agrees := by
  intro entry
  rw [Scan.add, AList.mem_insert, List.mem_append, List.mem_singleton, agrees entry]
  exact or_comm

theorem Scan.Agrees.scanJson {scan : Scan} (agrees : scan.Agrees) (devices : List BlockDevice) :
    (Wizard.scanJson scan devices).1.Agrees := by
  induction devices generalizing scan with
  | nil => exact agrees
  | cons device devices inductionHypothesis =>
      rw [Wizard.scanJson]
      split
      · split
        · exact agrees
        · exact inductionHypothesis (agrees.add _ _)
      · exact inductionHypothesis agrees

theorem Scan.Agrees.scanLine {scan : Scan} (agrees : scan.Agrees) (line : List Char) :
    (Wizard.scanLine scan line).Agrees := by
  unfold Wizard.scanLine
  split
  · split
    · exact agrees.add _ _
    · exact agrees
  · exact agrees

theorem Scan.Agrees.scanListing {scan : Scan} (agrees : scan.Agrees) (listing : String) :
    (Wizard.scanListing scan listing).Agrees := by
  unfold Wizard.scanListing
  generalize (strip listing.toList).splitOn '\n' = lines
  induction lines generalizing scan with
  | nil => exact agrees
  | cons line lines inductionHypothesis => exact inductionHypothesis (agrees.scanLine line)

/-- Whatever the two branches meet, the entries returned are the keys of
`disks_info`. -/
theorem getAvailableDisks_agrees (probe : Probe) : (getAvailableDisks probe).Agrees := by
  have body : (jsonBranch probe).1.Agrees := by
    unfold jsonBranch
    cases probe.json with
    | none => exact Scan.agrees_empty
    | some devices => exact Scan.agrees_empty.scanJson devices
  have handler : (plainBranch probe (jsonBranch probe).1).Agrees := by
    unfold plainBranch
    cases probe.listing with
    | none => exact body
    | some listing => exact body.scanListing listing
  unfold getAvailableDisks
  rcases branch : jsonBranch probe with ⟨scan, raised⟩
  rw [branch] at body handler
  cases raised with
  | false => exact body
  | true => exact handler

end AqjOs.Wizard
