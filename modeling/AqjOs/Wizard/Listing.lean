import AqjOs.Text.Runs
import AqjOs.Wizard.Disks

/-!
# Reading the plain listing

The fallback branch strips the listing, splits it into lines and each line into
words.  Only the words of the lines matter to it, and stripping changes none of
them: white space at an end of the text belongs to no word.
-/

namespace AqjOs.Wizard

open AqjOs.Text

/-! ## Words -/

theorem split_append_space {space : Char} (isSpace : isSpace space = true)
    (before after : List Char) :
    split (before ++ space :: after) = split before ++ split after := by
  rw [split, List.splitOnP_append_cons before after isSpace, List.filter_append]
  rfl

@[simp]
theorem split_nil : split [] = [] := by
  simp [split]

/-- A word has characters and no white space. -/
theorem mem_split {text word : List Char} (member : word ∈ split text) :
    word ≠ [] ∧ Solid isSpace word := by
  obtain ⟨piece, nonempty⟩ := List.mem_filter.mp member
  constructor
  · rintro rfl
    cases nonempty
  · exact solid_of_mem_splitOnP piece

/-- The lines of a text that have words, by their words. -/
def lineWords (text : List Char) : List (List (List Char)) :=
  ((text.splitOn '\n').map split).filter fun words => !words.isEmpty

theorem lineWords_single {line : List Char} (single : '\n' ∉ line) :
    lineWords line = [split line].filter fun words => !words.isEmpty := by
  rw [lineWords, List.splitOn_eq_singleton single, List.map_singleton]

theorem lineWords_more {line : List Char} (single : '\n' ∉ line) (rest : List Char) :
    lineWords (line ++ '\n' :: rest) =
      ([split line].filter fun words => !words.isEmpty) ++ lineWords rest := by
  rw [lineWords, List.splitOn_append_cons_self_of_not_mem single, List.map_cons,
    ← List.singleton_append, List.filter_append]
  rfl

theorem newline_notMem {line : List Char} (solid : Solid (· == '\n') line) : '\n' ∉ line := by
  intro member
  have differs := solid '\n' member
  cases differs

/-- White space at the end of a text belongs to no word. -/
theorem lineWords_concat {space : Char} (isSpace : isSpace space = true) (text : List Char) :
    lineWords (text ++ [space]) = lineWords text := by
  have word (line : List Char) : split (line ++ [space]) = split line := by
    rw [split_append_space isSpace, split_nil, List.append_nil]
  by_cases newline : space = '\n'
  · rw [newline]
    induction text using runInduction (· == '\n') with
    | single line solid =>
        rw [lineWords_more (newline_notMem solid), lineWords_single (newline_notMem solid)]
        simp [lineWords]
    | more line char rest solid delimits ih =>
        rw [beq_iff_eq] at delimits
        rw [delimits, List.append_assoc, List.cons_append,
          lineWords_more (newline_notMem solid), lineWords_more (newline_notMem solid), ih]
  · induction text using runInduction (· == '\n') with
    | single line solid =>
        have single := newline_notMem solid
        have longer : '\n' ∉ line ++ [space] := by
          simp [single, Ne.symm newline]
        rw [lineWords_single single, lineWords_single longer, word]
    | more line char rest solid delimits ih =>
        rw [beq_iff_eq] at delimits
        rw [delimits, List.append_assoc, List.cons_append,
          lineWords_more (newline_notMem solid), lineWords_more (newline_notMem solid), ih]

/-- White space at the front of a text belongs to no word. -/
theorem lineWords_cons {space : Char} (isSpace : isSpace space = true) (text : List Char) :
    lineWords (space :: text) = lineWords text := by
  have word (line : List Char) : split (space :: line) = split line := by
    have cut := split_append_space isSpace [] line
    rwa [List.nil_append, split_nil, List.nil_append] at cut
  by_cases newline : space = '\n'
  · have cut := lineWords_more (List.not_mem_nil (a := '\n')) text
    rw [List.nil_append, split_nil] at cut
    rw [newline, cut]
    rfl
  · induction text using runInduction (· == '\n') with
    | single line solid =>
        have single := newline_notMem solid
        have longer : '\n' ∉ space :: line := by
          simp [single, Ne.symm newline]
        rw [lineWords_single single, lineWords_single longer, word]
    | more line char rest solid delimits ih =>
        have single := newline_notMem solid
        have longer : '\n' ∉ space :: line := by
          simp [single, Ne.symm newline]
        rw [beq_iff_eq] at delimits
        rw [delimits, ← List.cons_append, lineWords_more longer, lineWords_more single, word]

theorem lineWords_dropWhile (text : List Char) :
    lineWords (text.dropWhile isSpace) = lineWords text := by
  induction text with
  | nil => rfl
  | cons char text ih =>
      rw [List.dropWhile_cons]
      split
      · case isTrue space => rw [ih, lineWords_cons space]
      · rfl

theorem lineWords_reverse_dropWhile (text : List Char) :
    lineWords (text.dropWhile isSpace).reverse = lineWords text.reverse := by
  induction text with
  | nil => rfl
  | cons char text ih =>
      rw [List.dropWhile_cons]
      split
      · case isTrue space => rw [ih, List.reverse_cons, lineWords_concat space]
      · rfl

theorem lineWords_strip (text : List Char) : lineWords (strip text) = lineWords text := by
  rw [strip, lineWords_reverse_dropWhile, List.reverse_reverse, lineWords_dropWhile]

/-! ## Listings of devices -/

/-- What a line of these words adds. -/
def scanWords (scan : Scan) : List (List Char) → Scan
  | name :: size :: type :: _ =>
      if type = "disk".toList then
        let path := devicePath (String.ofList name)
        scan.add (displayString path (String.ofList size) "Storage Drive") path
      else
        scan
  | _ => scan

/-- The loop sees the words of the lines and nothing else. -/
theorem scanListing_eq (scan : Scan) (listing : String) :
    scanListing scan listing = (lineWords listing.toList).foldl scanWords scan := by
  have skipped (lines : List (List (List Char))) (scan : Scan) :
      (lines.filter fun words => !words.isEmpty).foldl scanWords scan =
        lines.foldl scanWords scan := by
    induction lines generalizing scan with
    | nil => rfl
    | cons words lines ih =>
        cases words with
        | nil => exact ih scan
        | cons word words => exact ih (scanWords scan (word :: words))
  rw [← lineWords_strip, lineWords, skipped, List.foldl_map]
  rfl

/-- The text has one line for each device, with its name, size and type in
columns of any width. -/
def Tabulates (listing : String) (devices : List BlockDevice) : Prop :=
  ∃ lines : List (List Char),
    listing.toList = lines.flatMap (fun line => line ++ ['\n']) ∧
    List.Forall₂ (fun line (device : BlockDevice) => '\n' ∉ line ∧
      split line = [device.name.toList, device.size.toList, device.type.toList]) lines devices

theorem Tabulates.lineWords {listing : String} {devices : List BlockDevice}
    (tabulates : Tabulates listing devices) :
    Wizard.lineWords listing.toList = devices.map fun device =>
      [device.name.toList, device.size.toList, device.type.toList] := by
  obtain ⟨lines, text, columns⟩ := tabulates
  rw [text]
  clear text
  induction columns with
  | nil => simp [Wizard.lineWords]
  | cons row rows ih =>
      rw [List.flatMap_cons, List.append_assoc, List.singleton_append, lineWords_more row.1,
        row.2, ih]
      rfl

/-- A device name in a listing is a word. -/
theorem Tabulates.name_solid {listing : String} {devices : List BlockDevice}
    (tabulates : Tabulates listing devices) {device : BlockDevice} (member : device ∈ devices) :
    Solid isSpace device.name.toList := by
  obtain ⟨lines, -, columns⟩ := tabulates
  induction columns with
  | nil => cases member
  | cons row rows ih =>
      rcases List.mem_cons.mp member with rfl | later
      · obtain ⟨-, words⟩ := row
        have first := List.mem_cons_self (a := device.name.toList)
          (l := [device.size.toList, device.type.toList])
        rw [← words] at first
        exact (mem_split first).2
      · exact ih later

end AqjOs.Wizard
