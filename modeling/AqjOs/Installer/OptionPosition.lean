import AqjOs.Installer.Arguments

/-!
# The reference reading of the installer's arguments

A token is in option position unless it is the value of the option before it.
This is a property of the places in the argument vector, stated without the loop.
The reference reading takes, for each variable, the value after the last
occurrence of its option in option position.
-/

namespace AqjOs.Installer

/-- The token is one of the options that take a value. -/
def takesValue (token : String) : Bool :=
  (Field.ofToken token).isSome

/-- The place is not taken by the value of an option right before it that is
itself in option position. -/
def optionPosition (args : List String) : Nat → Bool
  | 0 => true
  | place + 1 => !(optionPosition args place && args[place]?.any takesValue)

/-- The places in option position that hold a token, from left to right. -/
def occurrences (args : List String) (token : String) : List Nat :=
  (List.range args.length).filter fun place =>
    optionPosition args place && args[place]? == some token

/-- Every option in option position that takes a value has a token after it. -/
def ValuesGiven (args : List String) : Prop :=
  ∀ place, optionPosition args place = true → args[place]?.any takesValue = true →
    place + 1 < args.length

theorem valuesGiven_iff {args : List String} :
    (∀ place < args.length, optionPosition args place = true →
      args[place]?.any takesValue = true → place + 1 < args.length) ↔ ValuesGiven args := by
  constructor
  · intro given place inPosition takes
    by_cases placeLt : place < args.length
    · exact given place placeLt inPosition takes
    · rw [List.getElem?_eq_none (Nat.le_of_not_lt placeLt)] at takes
      cases takes
  · intro given place placeLt
    exact given place

instance (args : List String) : Decidable (ValuesGiven args) :=
  decidable_of_iff _ valuesGiven_iff

/-- The value after the last occurrence of an option. -/
def lastValue (args : List String) (field : Field) : Option String :=
  (occurrences args field.flag).getLast?.map fun place => args.getD (place + 1) ""

/-- The variable of an option. -/
def Options.get (options : Options) : Field → String
  | .disk => options.targetDisk
  | .hostname => options.newHostname
  | .username => options.newUsername
  | .password => options.newPassword

/-- The reference reading, with the values that the variables have before. -/
def Options.reading (options : Options) (args : List String) : Options where
  nonInteractive := options.nonInteractive || !(occurrences args "--non-interactive").isEmpty
  targetDisk := (lastValue args .disk).getD options.targetDisk
  newHostname := (lastValue args .hostname).getD options.newHostname
  newUsername := (lastValue args .username).getD options.newUsername
  newPassword := (lastValue args .password).getD options.newPassword

theorem Options.eq_of_get {first second : Options}
    (modeEq : first.nonInteractive = second.nonInteractive)
    (fieldsEq : ∀ field, first.get field = second.get field) : first = second := by
  cases first
  cases second
  have diskEq := fieldsEq .disk
  have hostnameEq := fieldsEq .hostname
  have usernameEq := fieldsEq .username
  have passwordEq := fieldsEq .password
  simp only [Options.get] at diskEq hostnameEq usernameEq passwordEq
  simp only at modeEq
  subst modeEq diskEq hostnameEq usernameEq passwordEq
  rfl

@[simp]
theorem Options.reading_get (options : Options) (args : List String) (field : Field) :
    (options.reading args).get field = (lastValue args field).getD (options.get field) := by
  cases field <;> rfl

theorem Options.get_set (options : Options) (value : String) (set field : Field) :
    (options.set value set).get field = if set = field then value else options.get field := by
  cases set <;> cases field <;> rfl

/-! ## Places after the first token -/

section Shift

variable {token : String} {rest : List String}

theorem optionPosition_cons (plainToken : takesValue token = false) (place : Nat) :
    optionPosition (token :: rest) (place + 1) = optionPosition rest place := by
  induction place with
  | zero => simp [optionPosition, plainToken]
  | succ place ih => rw [optionPosition, ih, optionPosition, List.getElem?_cons_succ]

theorem optionPosition_value (takes : takesValue token = true) :
    optionPosition (token :: rest) 1 = false := by
  simp [optionPosition, takes]

theorem optionPosition_cons_cons {value : String} (takes : takesValue token = true)
    (place : Nat) :
    optionPosition (token :: value :: rest) (place + 2) = optionPosition rest place := by
  induction place with
  | zero => simp [optionPosition, takes]
  | succ place ih =>
      rw [optionPosition, ih, optionPosition, List.getElem?_cons_succ,
        List.getElem?_cons_succ]

theorem filter_range_succ (keep : Nat → Bool) (length : Nat) :
    (List.range (length + 1)).filter keep =
      (if keep 0 then [0] else []) ++
        ((List.range length).filter fun place => keep (place + 1)).map (· + 1) := by
  rw [List.range_succ_eq_map, List.filter_cons, List.filter_map]
  cases keep 0 <;> rfl

theorem holds_zero (token flag : String) (rest : List String) :
    (optionPosition (token :: rest) 0 && (token :: rest)[0]? == some flag) =
      decide (token = flag) := by
  rw [optionPosition, Bool.true_and, List.getElem?_cons_zero]
  exact Option.some_beq_some

/-- A token without a value moves the occurrences by one place. -/
theorem occurrences_cons (plainToken : takesValue token = false) (flag : String) :
    occurrences (token :: rest) flag =
      (if token = flag then [0] else []) ++ (occurrences rest flag).map (· + 1) := by
  rw [occurrences, List.length_cons, filter_range_succ, holds_zero]
  simp only [optionPosition_cons plainToken, List.getElem?_cons_succ, decide_eq_true_eq]
  rfl

/-- An option and its value move the occurrences by two places. -/
theorem occurrences_cons_cons {value : String} (takes : takesValue token = true)
    (flag : String) :
    occurrences (token :: value :: rest) flag =
      (if token = flag then [0] else []) ++ (occurrences rest flag).map (· + 2) := by
  rw [occurrences, List.length_cons, List.length_cons, filter_range_succ, filter_range_succ,
    holds_zero]
  simp only [optionPosition_cons_cons takes, optionPosition_value takes,
    List.getElem?_cons_succ, decide_eq_true_eq, Bool.false_and, if_neg Bool.false_ne_true,
    List.nil_append, List.map_map]
  rfl

theorem valuesGiven_cons (plainToken : takesValue token = false) :
    ValuesGiven (token :: rest) ↔ ValuesGiven rest := by
  constructor
  · intro given place inPosition takes
    have nextLt := given (place + 1) (by rwa [optionPosition_cons plainToken])
      (by rwa [List.getElem?_cons_succ])
    rw [List.length_cons] at nextLt
    omega
  · intro given place inPosition takes
    cases place with
    | zero =>
        rw [List.getElem?_cons_zero, Option.any_some, plainToken] at takes
        cases takes
    | succ place =>
        rw [optionPosition_cons plainToken] at inPosition
        rw [List.getElem?_cons_succ] at takes
        have nextLt := given place inPosition takes
        rw [List.length_cons]
        omega

theorem valuesGiven_cons_cons {value : String} (takes : takesValue token = true) :
    ValuesGiven (token :: value :: rest) ↔ ValuesGiven rest := by
  constructor
  · intro given place inPosition isOption
    have nextLt := given (place + 2) (by rwa [optionPosition_cons_cons takes])
      (by rwa [List.getElem?_cons_succ, List.getElem?_cons_succ])
    rw [List.length_cons, List.length_cons] at nextLt
    omega
  · intro given place inPosition isOption
    match place with
    | 0 =>
        rw [List.length_cons, List.length_cons]
        omega
    | 1 =>
        rw [optionPosition_value takes] at inPosition
        cases inPosition
    | place + 2 =>
        rw [optionPosition_cons_cons takes] at inPosition
        rw [List.getElem?_cons_succ, List.getElem?_cons_succ] at isOption
        have nextLt := given place inPosition isOption
        rw [List.length_cons, List.length_cons]
        omega

theorem not_valuesGiven_singleton (takes : takesValue token = true) :
    ¬ ValuesGiven [token] := by
  intro given
  have nextLt := given 0 rfl (by rwa [List.getElem?_cons_zero, Option.any_some])
  rw [List.length_singleton] at nextLt
  omega

end Shift

/-! ## Reading one token -/

theorem Field.ofToken_eq_some_iff {token : String} {field : Field} :
    Field.ofToken token = some field ↔ token = field.flag := by
  constructor
  · intro fieldEq
    rw [Field.ofToken] at fieldEq
    split at fieldEq
    · case isTrue tokenEq => rw [tokenEq, ← Option.some.inj fieldEq]; rfl
    split at fieldEq
    · case isTrue tokenEq => rw [tokenEq, ← Option.some.inj fieldEq]; rfl
    split at fieldEq
    · case isTrue tokenEq => rw [tokenEq, ← Option.some.inj fieldEq]; rfl
    split at fieldEq
    · case isTrue tokenEq => rw [tokenEq, ← Option.some.inj fieldEq]; rfl
    cases fieldEq
  · rintro rfl
    exact Field.ofToken_flag field

@[simp]
theorem takesValue_flag (field : Field) : takesValue field.flag = true := by
  rw [takesValue, Field.ofToken_flag, Option.isSome_some]

theorem takesValue_iff {token : String} :
    takesValue token = true ↔ ∃ field : Field, token = field.flag := by
  rw [takesValue, Option.isSome_iff_exists]
  exact exists_congr fun field => Field.ofToken_eq_some_iff

theorem Field.flag_injective : Function.Injective Field.flag := by
  intro first second flagEq
  have tokenEq := Field.ofToken_flag first
  rw [flagEq, Field.ofToken_flag] at tokenEq
  exact (Option.some.inj tokenEq).symm

/-- The arguments as the loop takes them: one token without a value, or an
option with the token after it. -/
theorem argumentInduction {motive : List String → Prop} (nil : motive [])
    (plain : ∀ token rest, takesValue token = false → motive rest → motive (token :: rest))
    (last : ∀ field : Field, motive [field.flag])
    (option : ∀ (field : Field) value rest, motive rest → motive (field.flag :: value :: rest)) :
    ∀ args, motive args
  | [] => nil
  | [token] => by
      cases takes : takesValue token with
      | false => exact plain token [] takes nil
      | true =>
          obtain ⟨field, rfl⟩ := takesValue_iff.mp takes
          exact last field
  | token :: value :: rest => by
      cases takes : takesValue token with
      | false =>
          exact plain token (value :: rest) takes
            (argumentInduction nil plain last option (value :: rest))
      | true =>
          obtain ⟨field, rfl⟩ := takesValue_iff.mp takes
          exact option field value rest (argumentInduction nil plain last option rest)

/-- The variables after a token without a value. -/
def Options.mark (options : Options) (token : String) : Options :=
  { options with nonInteractive := options.nonInteractive || decide (token = "--non-interactive") }

theorem parseArguments_plain {token : String} (plainToken : takesValue token = false)
    (options : Options) (rest : List String) :
    parseArguments options (token :: rest) = parseArguments (options.mark token) rest := by
  by_cases modeEq : token = "--non-interactive"
  · rw [modeEq, parseArguments_nonInteractive]
    simp [Options.mark]
  · have fieldEq : Field.ofToken token = none := Option.not_isSome_iff_eq_none.mp (by
      rw [← takesValue, plainToken]
      exact Bool.false_ne_true)
    have unchanged : options.mark token = options := by
      simp [Options.mark, modeEq]
    rw [unchanged]
    cases rest with
    | nil => simp [parseArguments, modeEq, fieldEq]
    | cons value rest => simp [parseArguments, modeEq, fieldEq]

theorem parseArguments_last (options : Options) (field : Field) :
    parseArguments options [field.flag] = none := by
  rw [parseArguments, if_neg field.flag_ne_nonInteractive, Field.ofToken_flag]

theorem lastValue_cons {token : String} (plainToken : takesValue token = false)
    (rest : List String) (field : Field) :
    lastValue (token :: rest) field = lastValue rest field := by
  have otherToken : token ≠ field.flag := by
    rintro rfl
    rw [takesValue_flag] at plainToken
    cases plainToken
  rw [lastValue, occurrences_cons plainToken, if_neg otherToken, List.nil_append, List.getLast?_map,
    Option.map_map]
  rfl

theorem lastValue_option (set field : Field) (value : String) (rest : List String) :
    lastValue (set.flag :: value :: rest) field =
      (lastValue rest field).or (if set = field then some value else none) := by
  rw [lastValue, occurrences_cons_cons (takesValue_flag set), List.getLast?_append,
    List.getLast?_map, lastValue]
  cases (occurrences rest field.flag).getLast? with
  | some place => rfl
  | none =>
      by_cases fieldEq : set = field
      · rw [if_pos (congrArg Field.flag fieldEq), if_pos fieldEq]
        rfl
      · rw [if_neg (fun flagEq => fieldEq (Field.flag_injective flagEq)), if_neg fieldEq]
        rfl

theorem Options.reading_plain {token : String} (plainToken : takesValue token = false)
    (options : Options) (rest : List String) :
    options.reading (token :: rest) = (options.mark token).reading rest := by
  apply Options.eq_of_get
  · simp only [Options.reading, Options.mark, occurrences_cons plainToken]
    by_cases modeEq : token = "--non-interactive" <;> simp [modeEq]
  · intro field
    rw [Options.reading_get, Options.reading_get, lastValue_cons plainToken]
    cases field <;> rfl

theorem Options.reading_option (options : Options) (set : Field) (value : String)
    (rest : List String) :
    options.reading (set.flag :: value :: rest) = (options.set value set).reading rest := by
  apply Options.eq_of_get
  · have modeEq : (options.set value set).nonInteractive = options.nonInteractive := by
      cases set <;> rfl
    simp only [Options.reading, modeEq, occurrences_cons_cons (takesValue_flag set),
      if_neg set.flag_ne_nonInteractive, List.nil_append, List.isEmpty_map]
  · intro field
    rw [Options.reading_get, Options.reading_get, lastValue_option, Options.get_set]
    cases lastValue rest field with
    | some last => rfl
    | none => by_cases fieldEq : set = field <;> simp [fieldEq]

/-- The loop computes the reference reading. -/
theorem parseArguments_of_valuesGiven {args : List String} (given : ValuesGiven args)
    (options : Options) : parseArguments options args = some (options.reading args) := by
  induction args using argumentInduction generalizing options with
  | nil => simp [Options.reading, lastValue, occurrences]
  | plain token rest plainToken ih =>
      rw [parseArguments_plain plainToken, Options.reading_plain plainToken]
      exact ih ((valuesGiven_cons plainToken).mp given) (options.mark token)
  | last field => exact absurd given (not_valuesGiven_singleton (takesValue_flag field))
  | option field value rest ih =>
      rw [parseArguments_flag, Options.reading_option]
      exact ih ((valuesGiven_cons_cons (takesValue_flag field)).mp given) _

/-- The loop stops exactly where a value is missing. -/
theorem parseArguments_of_not_valuesGiven {args : List String} (missing : ¬ ValuesGiven args)
    (options : Options) : parseArguments options args = none := by
  induction args using argumentInduction generalizing options with
  | nil =>
      refine absurd ?_ missing
      intro place inPosition takes
      cases takes
  | plain token rest plainToken ih =>
      rw [parseArguments_plain plainToken]
      exact ih (fun given => missing ((valuesGiven_cons plainToken).mpr given)) _
  | last field => exact parseArguments_last options field
  | option field value rest ih =>
      rw [parseArguments_flag]
      exact ih (fun given =>
        missing ((valuesGiven_cons_cons (takesValue_flag field)).mpr given)) _

/-- A token in option position that is no option is as good as absent. -/
theorem parseArguments_ignored {token : String} (plainToken : takesValue token = false)
    (modeEq : token ≠ "--non-interactive") (front rest : List String)
    (inPosition : optionPosition (front ++ token :: rest) front.length = true)
    (options : Options) :
    parseArguments options (front ++ token :: rest) = parseArguments options (front ++ rest) := by
  induction front using argumentInduction generalizing options with
  | nil =>
      have unchanged : options.mark token = options := by
        simp [Options.mark, modeEq]
      rw [List.nil_append, List.nil_append, parseArguments_plain plainToken, unchanged]
  | plain first front firstPlain ih =>
      rw [List.cons_append, List.length_cons, optionPosition_cons firstPlain] at inPosition
      rw [List.cons_append, List.cons_append, parseArguments_plain firstPlain,
        parseArguments_plain firstPlain, ih inPosition]
  | last field =>
      have valueTaken : optionPosition (field.flag :: token :: rest) 1 = false :=
        optionPosition_value (takesValue_flag field)
      rw [List.singleton_append, List.length_singleton, valueTaken] at inPosition
      cases inPosition
  | option field value front ih =>
      rw [List.cons_append, List.cons_append, List.length_cons, List.length_cons,
        optionPosition_cons_cons (takesValue_flag field)] at inPosition
      rw [List.cons_append, List.cons_append, List.cons_append, List.cons_append,
        parseArguments_flag, parseArguments_flag, ih inPosition]

/-- The loop reads every complete argument vector as the reference does, drops
the tokens in option position that are no options, and reads the wizard's
command line back as the four strings it was built from. -/
theorem parseArguments_agrees_reference :
    (∀ args, ValuesGiven args →
      parseArguments .default args = some (Options.default.reading args)) ∧
    (∀ front token rest, optionPosition (front ++ token :: rest) front.length = true →
      takesValue token = false → token ≠ "--non-interactive" →
      parseArguments .default (front ++ token :: rest) =
        parseArguments .default (front ++ rest)) ∧
    ∀ disk hostname username password,
      parseArguments .default (installCommand disk hostname username password) =
        some ⟨true, disk, hostname, username, password⟩ := by
  refine ⟨?_, ?_, parseArguments_installCommand⟩
  · intro args given
    exact parseArguments_of_valuesGiven given .default
  · intro front token rest inPosition plainToken modeEq
    exact parseArguments_ignored plainToken modeEq front rest inPosition .default

/-- Values spelled like options, a repeated option and a token that is none. -/
def oddArguments : List String :=
  ["--disk", "--non-interactive", "verbose", "--hostname", "--disk", "--hostname", "box"]

theorem oddArguments_reading :
    ValuesGiven oddArguments ∧
      Options.default.reading oddArguments =
        ⟨false, "--non-interactive", "box", "aqj", "aqj123"⟩ ∧
      parseArguments .default oddArguments = some (Options.default.reading oddArguments) :=
  ⟨by decide, by decide +kernel, parseArguments_agrees_reference.1 oddArguments (by decide)⟩

end AqjOs.Installer
