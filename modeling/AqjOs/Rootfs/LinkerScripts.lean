import AqjOs.Rootfs.Populate
import AqjOs.Text.Runs

/-!
# Sanitising linker scripts

`build_glibc.sh` and `populate_rootfs.sh` pass the linker scripts of the library
through `sed`.  Neither pattern contains a delimiter, so that an occurrence lies
within one run of the text and the program acts run by run: on lines, which is
how `sed` reads its input, and on the words between white space and parentheses.
-/

namespace AqjOs.Rootfs

open AqjOs.Text

variable {pattern : List Char}

/-! ## Deleting a pattern -/

theorem isPrefixOf_append_cons {stop : Char} (stopFree : stop ∉ pattern)
    (run rest : List Char) :
    pattern.isPrefixOf (run ++ stop :: rest) = pattern.isPrefixOf run := by
  induction pattern generalizing run with
  | nil => simp
  | cons char pattern ih =>
      obtain ⟨headNe, tailFree⟩ : stop ≠ char ∧ stop ∉ pattern := by
        simpa only [List.mem_cons, not_or] using stopFree
      cases run with
      | nil => simp [List.isPrefixOf, Ne.symm headNe]
      | cons other run =>
          rw [List.cons_append, List.isPrefixOf, List.isPrefixOf, ih tailFree]

/-- A character that the pattern lacks separates the text for the deletion. -/
theorem deleteFrom_append_cons {stop : Char} (nonempty : pattern ≠ [])
    (stopFree : stop ∉ pattern) (run rest : List Char) {skip : Nat}
    (skipLe : skip ≤ run.length) :
    deleteFrom pattern skip (run ++ stop :: rest) =
      deleteFrom pattern skip run ++ stop :: deleteFrom pattern 0 rest := by
  induction run generalizing skip with
  | nil =>
      obtain rfl : skip = 0 := Nat.le_zero.mp skipLe
      have notFound := isPrefixOf_append_cons stopFree [] rest
      have notEmpty : pattern.isPrefixOf [] = false := by
        cases pattern with
        | nil => exact absurd rfl nonempty
        | cons char pattern => rfl
      rw [notEmpty, List.nil_append] at notFound
      change deleteFrom pattern 0 (stop :: rest) = stop :: deleteFrom pattern 0 rest
      rw [deleteFrom, notFound, if_neg Bool.false_ne_true]
  | cons char run ih =>
      cases skip with
      | succ skip =>
          rw [List.cons_append, deleteFrom, deleteFrom]
          exact ih (Nat.le_of_succ_le_succ skipLe)
      | zero =>
          have sameTest := isPrefixOf_append_cons stopFree (char :: run) rest
          rw [List.cons_append] at sameTest
          rw [List.cons_append, deleteFrom, deleteFrom, sameTest]
          by_cases found : pattern.isPrefixOf (char :: run) = true
          · have lengthLe := (List.isPrefixOf_iff_prefix.mp found).length_le
            rw [if_pos found, if_pos found]
            apply ih
            rw [List.length_cons] at lengthLe
            omega
          · rw [if_neg found, if_neg found, ih (Nat.zero_le _), List.cons_append]

/-- A deletion acts on each run separately, for delimiters that the pattern
lacks. -/
theorem deleteFrom_eq_mapRuns {delimiter : Char → Bool} (nonempty : pattern ≠ [])
    (solid : Solid delimiter pattern) (text : List Char) :
    deleteFrom pattern 0 text = mapRuns delimiter (deleteFrom pattern 0) text := by
  induction text using runInduction delimiter with
  | single run runSolid => rw [mapRuns_single runSolid]
  | more run char rest runSolid delimits ih =>
      have stopFree : char ∉ pattern := by
        intro member
        rw [solid char member] at delimits
        cases delimits
      rw [mapRuns_more rest runSolid delimits, ← ih,
        deleteFrom_append_cons nonempty stopFree run rest (Nat.zero_le _)]

theorem deleteFrom_sublist (skip : Nat) (text : List Char) :
    (deleteFrom pattern skip text).Sublist text := by
  induction text generalizing skip with
  | nil => cases skip <;> exact List.Sublist.slnil
  | cons char text ih =>
      cases skip with
      | succ skip => exact (ih skip).cons char
      | zero =>
          rw [deleteFrom]
          split
          · exact (ih _).cons char
          · exact (ih 0).cons_cons char

theorem deleteFrom_solid {delimiter : Char → Bool} {run : List Char}
    (solid : Solid delimiter run) : Solid delimiter (deleteFrom pattern 0 run) :=
  fun char member => solid char ((deleteFrom_sublist 0 run).mem member)

/-- A text without the pattern is left as it is. -/
theorem deleteFrom_of_free {text : List Char} (free : ¬ pattern <:+: text) :
    deleteFrom pattern 0 text = text := by
  induction text with
  | nil => rfl
  | cons char text ih =>
      have headNe : ¬ pattern.isPrefixOf (char :: text) = true := fun found =>
        free (List.isPrefixOf_iff_prefix.mp found).isInfix
      rw [deleteFrom, if_neg headNe,
        ih fun found => free (found.trans (List.suffix_cons char text).isInfix)]

/-- A pattern at the front is dropped. -/
theorem deleteFrom_append (nonempty : pattern ≠ []) (rest : List Char) :
    deleteFrom pattern 0 (pattern ++ rest) = deleteFrom pattern 0 rest := by
  have dropped : ∀ front : List Char,
      deleteFrom pattern front.length (front ++ rest) = deleteFrom pattern 0 rest := by
    intro front
    induction front with
    | nil => rfl
    | cons char front ih => exact ih
  have found : pattern.isPrefixOf (pattern ++ rest) = true :=
    List.isPrefixOf_iff_prefix.mpr (List.prefix_append pattern rest)
  cases patternEq : pattern with
  | nil => exact absurd patternEq nonempty
  | cons char front =>
      rw [patternEq] at found dropped
      rw [List.cons_append] at found ⊢
      rw [deleteFrom, if_pos found]
      exact dropped front

/-- A text without slashes does not contain a pattern that has one. -/
theorem free_of_noSlash {text : List Char} (slash : '/' ∈ pattern) (noSlash : '/' ∉ text) :
    ¬ pattern <:+: text :=
  fun found => noSlash (found.mem slash)

/-! ## The program -/

/-- The directories that the program strips. -/
def libraryDirectories : List (List Char) :=
  ["/lib64/".toList, "/usr/lib/".toList]

/-- The two commands, one after the other. -/
def sanitizeRun (run : List Char) : List Char :=
  deleteFrom "/usr/lib/".toList 0 (deleteFrom "/lib64/".toList 0 run)

/-- The program as `sed` runs it: both commands on one line after the other. -/
def sanitizeLines (text : String) : String :=
  String.ofList (mapRuns (· == '\n') sanitizeRun text.toList)

/-- White space, as the C locale has it, and parentheses. -/
def isDelimiter (char : Char) : Bool :=
  [' ', '\t', '\n', '\x0b', '\x0c', '\r', '(', ')'].contains char

theorem sanitize_toList (text : String) :
    (sanitize text).toList = sanitizeRun text.toList := by
  simp [sanitize, deleteAll, sanitizeRun]

theorem sanitizeRun_solid {delimiter : Char → Bool} {run : List Char}
    (solid : Solid delimiter run) : Solid delimiter (sanitizeRun run) :=
  deleteFrom_solid (deleteFrom_solid solid)

/-- The program acts on each run separately, for delimiters that neither
pattern contains. -/
theorem sanitizeRun_eq_mapRuns {delimiter : Char → Bool}
    (patternsSolid : ∀ pattern ∈ libraryDirectories, Solid delimiter pattern)
    (text : List Char) : sanitizeRun text = mapRuns delimiter sanitizeRun text := by
  have firstPart : Solid delimiter "/lib64/".toList := patternsSolid _ (by decide)
  have secondPart : Solid delimiter "/usr/lib/".toList := patternsSolid _ (by decide)
  rw [sanitizeRun, deleteFrom_eq_mapRuns (by decide) secondPart,
    deleteFrom_eq_mapRuns (by decide) firstPart, mapRuns_mapRuns text fun run => deleteFrom_solid]
  rfl

/-! ## Exactness and stability -/

/-- A word of the shape that the library installs: free of the stripped
directories, or the path of a file right below one of them. -/
def LibraryWord (run : List Char) : Prop :=
  (∀ directory ∈ libraryDirectories, ¬ directory <:+: run) ∨
    ∃ directory ∈ libraryDirectories, ∃ name, '/' ∉ name ∧ run = directory ++ name

theorem exists_name_iff {run : List Char} :
    (∃ directory ∈ libraryDirectories, ∃ name, '/' ∉ name ∧ run = directory ++ name) ↔
      ∃ directory ∈ libraryDirectories,
        directory <+: run ∧ '/' ∉ run.drop directory.length := by
  constructor
  · rintro ⟨directory, member, name, plainName, rfl⟩
    refine ⟨directory, member, List.prefix_append directory name, ?_⟩
    rwa [List.drop_left]
  · rintro ⟨directory, member, ⟨name, rfl⟩, plainName⟩
    rw [List.drop_left] at plainName
    exact ⟨directory, member, name, plainName, rfl⟩

instance (run : List Char) : Decidable (LibraryWord run) :=
  decidable_of_iff _ (or_congr_right exists_name_iff.symm)

/-- What a word becomes: the name of the file, for the path of a file right
below one of the directories, and otherwise the word itself. -/
def baseName (run : List Char) : List Char :=
  if "/lib64/".toList <+: run ∧ '/' ∉ run.drop 7 then run.drop 7
  else if "/usr/lib/".toList <+: run ∧ '/' ∉ run.drop 9 then run.drop 9
  else run

theorem baseName_of_free {run : List Char}
    (free : ∀ directory ∈ libraryDirectories, ¬ directory <:+: run) :
    baseName run = run := by
  have firstPart : ¬ "/lib64/".toList <+: run :=
    fun found => free "/lib64/".toList (by decide) found.isInfix
  have secondPart : ¬ "/usr/lib/".toList <+: run :=
    fun found => free "/usr/lib/".toList (by decide) found.isInfix
  rw [baseName, if_neg fun h => firstPart h.1, if_neg fun h => secondPart h.1]

theorem baseName_append {directory name : List Char} (member : directory ∈ libraryDirectories)
    (plainName : '/' ∉ name) : baseName (directory ++ name) = name := by
  simp only [libraryDirectories, List.mem_cons, List.not_mem_nil, or_false] at member
  rcases member with rfl | rfl
  · simp [baseName, plainName]
  · simp [baseName, plainName]

theorem sanitizeRun_of_free {run : List Char}
    (free : ∀ directory ∈ libraryDirectories, ¬ directory <:+: run) :
    sanitizeRun run = run := by
  have firstPart : ¬ "/lib64/".toList <:+: run := free _ (by decide)
  have secondPart : ¬ "/usr/lib/".toList <:+: run := free _ (by decide)
  rw [sanitizeRun, deleteFrom_of_free firstPart, deleteFrom_of_free secondPart]

theorem free_of_name {name : List Char} (plainName : '/' ∉ name) :
    ∀ directory ∈ libraryDirectories, ¬ directory <:+: name := by
  intro directory member
  have slashes : ∀ directory ∈ libraryDirectories, '/' ∈ directory := by decide
  exact free_of_noSlash (slashes directory member) plainName

/-- The first command does not touch a path below the second directory. -/
theorem deleteFrom_usrLib {name : List Char} (plainName : '/' ∉ name) :
    deleteFrom "/lib64/".toList 0 ("/usr/lib/".toList ++ name) =
      "/usr/lib/".toList ++ name := by
  have tailFree : ¬ ['l', 'i', 'b', '6', '4', '/'] <+: name :=
    fun found => plainName (found.mem (by decide))
  have kept : deleteFrom ['/', 'l', 'i', 'b', '6', '4', '/'] 0 name = name :=
    deleteFrom_of_free (free_of_noSlash (by decide) plainName)
  simp [deleteFrom, tailFree, kept]

theorem sanitizeRun_append {directory name : List Char}
    (member : directory ∈ libraryDirectories) (plainName : '/' ∉ name) :
    sanitizeRun (directory ++ name) = name := by
  have firstPart : ¬ "/lib64/".toList <:+: name := free_of_name plainName _ (by decide)
  have secondPart : ¬ "/usr/lib/".toList <:+: name := free_of_name plainName _ (by decide)
  simp only [libraryDirectories, List.mem_cons, List.not_mem_nil, or_false] at member
  rcases member with rfl | rfl
  · rw [sanitizeRun, deleteFrom_append (by decide), deleteFrom_of_free firstPart,
      deleteFrom_of_free secondPart]
  · rw [sanitizeRun, deleteFrom_usrLib plainName, deleteFrom_append (by decide),
      deleteFrom_of_free secondPart]

theorem sanitizeRun_eq_baseName {run : List Char} (word : LibraryWord run) :
    sanitizeRun run = baseName run := by
  rcases word with free | ⟨directory, member, name, plainName, rfl⟩
  · rw [sanitizeRun_of_free free, baseName_of_free free]
  · rw [sanitizeRun_append member plainName, baseName_append member plainName]

theorem sanitizeRun_sanitizeRun {run : List Char} (word : LibraryWord run) :
    sanitizeRun (sanitizeRun run) = sanitizeRun run := by
  rcases word with free | ⟨directory, member, name, plainName, rfl⟩
  · rw [sanitizeRun_of_free free, sanitizeRun_of_free free]
  · rw [sanitizeRun_append member plainName, sanitizeRun_of_free (free_of_name plainName)]

theorem libraryDirectories_solid :
    ∀ directory ∈ libraryDirectories, Solid isDelimiter directory := by
  decide

/-- Line by line or all at once, the program does the same. -/
theorem sanitizeLines_eq_sanitize (text : String) : sanitizeLines text = sanitize text := by
  have patternsSolid : ∀ directory ∈ libraryDirectories, Solid (· == '\n') directory := by
    decide
  rw [← String.toList_inj, sanitize_toList, sanitizeRun_eq_mapRuns patternsSolid, sanitizeLines,
    String.toList_ofList]

/-- A second pass over a text of library words changes nothing. -/
theorem sanitize_sanitize {text : String}
    (wellShaped : ∀ run ∈ text.toList.splitOnP isDelimiter, LibraryWord run) :
    sanitize (sanitize text) = sanitize text := by
  have twice : mapRuns isDelimiter (sanitizeRun ∘ sanitizeRun) text.toList =
      mapRuns isDelimiter sanitizeRun text.toList :=
    mapRuns_congr fun run member => sanitizeRun_sanitizeRun (wellShaped run member)
  rw [← String.toList_inj, sanitize_toList, sanitize_toList,
    sanitizeRun_eq_mapRuns libraryDirectories_solid text.toList,
    sanitizeRun_eq_mapRuns libraryDirectories_solid (mapRuns isDelimiter sanitizeRun _),
    mapRuns_mapRuns _ fun run => sanitizeRun_solid, twice]

/-- On a text of library words the program replaces every path by the name of
its file and keeps every other character, and no number of further passes
changes the result. -/
theorem sanitize_exact_stable (text : String)
    (wellShaped : ∀ run ∈ text.toList.splitOnP isDelimiter, LibraryWord run) :
    sanitizeLines text = sanitize text ∧
      (sanitize text).toList = mapRuns isDelimiter baseName text.toList ∧
      ∀ passes, sanitizeLines^[passes + 1] text = sanitizeLines text := by
  refine ⟨sanitizeLines_eq_sanitize text, ?_, ?_⟩
  · rw [sanitize_toList, sanitizeRun_eq_mapRuns libraryDirectories_solid]
    exact mapRuns_congr fun run member => sanitizeRun_eq_baseName (wellShaped run member)
  · intro passes
    induction passes with
    | zero => rfl
    | succ passes ih =>
        rw [Function.iterate_succ_apply', ih, sanitizeLines_eq_sanitize,
          sanitizeLines_eq_sanitize, sanitize_sanitize wellShaped]

/-- The script that the library installs as `libc.so`. -/
def libcScript : String :=
  "GROUP ( /lib64/libc.so.6 /usr/lib/libc_nonshared.a " ++
  " AS_NEEDED ( /lib64/ld-linux-x86-64.so.2 ) )\n"

theorem libcScript_exact_stable :
    sanitize libcScript =
        "GROUP ( libc.so.6 libc_nonshared.a  AS_NEEDED ( ld-linux-x86-64.so.2 ) )\n" ∧
      ∀ passes, sanitizeLines^[passes + 1] libcScript = sanitizeLines libcScript :=
  ⟨by decide +kernel, (sanitize_exact_stable libcScript (by decide +kernel)).2.2⟩

end AqjOs.Rootfs
