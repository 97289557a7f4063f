import CommandShell.Options

/-!
# The grammar of options

Arguments are options in any number and then operands, if there are any. An option is a flag in one of its two forms, with one more argument behind it if the flag takes a value, whatever this argument looks like. Operands start behind `--`, or with the first argument that does not look like an option.

No argument list can be read in two ways, because an argument in which an option starts is none in which operands start, and it tells by itself whether one more argument belongs to it. So reading is following the options one by one, and what is left behind the last of them decides: either it is operands, or the first argument of it is a mistake.
-/

namespace CommandShell

/-! ### Flags in their two forms -/

/-- The argument is the short or the long form of the flag. -/
def Flag.IsSpelled (flag : Flag) (argument : Text) : Prop :=
  argument = flag.short ∨ argument = flag.long

namespace Flag

theorem ofArgument?_of_isSpelled {flag : Flag} {argument : Text} (h : flag.IsSpelled argument) :
    ofArgument? argument = some flag := by
  rcases h with rfl | rfl <;> cases flag <;> rfl

theorem isSpelled_of_ofArgument? {flag : Flag} {argument : Text}
    (h : ofArgument? argument = some flag) : flag.IsSpelled argument := by
  rw [ofArgument?] at h
  have hwritten := List.find?_some h
  simpa [isWritten, IsSpelled] using hwritten

theorem ofArgument?_eq_none_iff {argument : Text} :
    ofArgument? argument = none ↔ ∀ flag : Flag, ¬flag.IsSpelled argument := by
  constructor
  · intro hnone flag hspelled
    rw [ofArgument?_of_isSpelled hspelled] at hnone
    simp at hnone
  · intro hunknown
    cases hflag : ofArgument? argument with
    | none => rfl
    | some flag => exact absurd (isSpelled_of_ofArgument? hflag) (hunknown flag)

theorem IsSpelled.unique {flag other : Flag} {argument : Text} (h : flag.IsSpelled argument)
    (hother : other.IsSpelled argument) : flag = other := by
  have hsame := (ofArgument?_of_isSpelled h).symm.trans (ofArgument?_of_isSpelled hother)
  exact Option.some.inj hsame

end Flag

/-- The argument looks like an option and is not the mark behind which operands start. -/
def LooksLikeOption (argument : Text) : Prop :=
  argument ≠ ['-', '-'] ∧ argument ≠ ['-'] ∧ argument.head? = some '-'

theorem Flag.IsSpelled.looksLikeOption {flag : Flag} {argument : Text}
    (h : flag.IsSpelled argument) : LooksLikeOption argument := by
  rcases h with rfl | rfl <;> cases flag <;> exact ⟨by decide, by decide, by decide⟩

/-! ### Options and operands -/

/-- An option as it is given. A flag that takes no value is set to a fixed one. -/
structure Setting where
  flag : Flag
  spelling : Text
  value : Text
  isSpelled : flag.IsSpelled spelling
  value_eq : flag.takesValue = false → value = Options.given

namespace Setting

def arguments (setting : Setting) : List Text :=
  setting.spelling :: if setting.flag.takesValue then [setting.value] else []

/-- Where an option starts there is one option only. -/
theorem eq_of_append_eq {first second : Setting} {left right : List Text}
    (h : first.arguments ++ left = second.arguments ++ right) : first = second ∧ left = right := by
  obtain ⟨flag, spelling, value, hspelled, hvalue⟩ := first
  obtain ⟨other, otherSpelling, otherValue, hotherSpelled, hotherValue⟩ := second
  simp only [arguments, List.cons_append, List.cons.injEq] at h
  obtain ⟨rfl, hbehind⟩ := h
  obtain rfl := hspelled.unique hotherSpelled
  cases htakes : flag.takesValue with
  | true =>
    simp only [htakes, if_true, List.singleton_append, List.cons.injEq] at hbehind
    obtain ⟨rfl, rfl⟩ := hbehind
    exact ⟨rfl, rfl⟩
  | false =>
    simp only [htakes] at hbehind
    obtain rfl := (hvalue htakes).trans (hotherValue htakes).symm
    exact ⟨rfl, hbehind⟩

/-- The value that the last of the settings of the flag gives it. -/
def lastValue? (flag : Flag) (settings : List Setting) : Option Text :=
  (settings.reverse.find? fun setting => setting.flag = flag).map Setting.value

/-- No option starts here. -/
def NoneStarts (rest : List Text) : Prop :=
  ∀ (setting : Setting) (behind : List Text), rest ≠ setting.arguments ++ behind

theorem noneStarts_of_head? {rest : List Text}
    (h : ∀ argument, rest.head? = some argument → ¬LooksLikeOption argument) : NoneStarts rest := by
  rintro setting behind rfl
  exact h setting.spelling rfl setting.isSpelled.looksLikeOption

/-- Settings up to where no option starts are the longest that the arguments begin with. -/
theorem prefix_of_append_eq {settings others : List Setting} {rest behind : List Text}
    (hrest : NoneStarts rest)
    (h : settings.flatMap arguments ++ rest = others.flatMap arguments ++ behind) :
    others <+: settings := by
  induction others generalizing settings with
  | nil => exact List.nil_prefix
  | cons other others ih =>
    rw [List.flatMap_cons, List.append_assoc] at h
    cases settings with
    | nil => exact absurd h (hrest other _)
    | cons setting settings =>
      rw [List.flatMap_cons, List.append_assoc] at h
      obtain ⟨rfl, hbehind⟩ := eq_of_append_eq h
      exact List.cons_prefix_cons.2 ⟨rfl, ih hbehind⟩

end Setting

/-- What stands behind the options. -/
inductive Operands where
  | none
  | marked (operands : List Text)
  | plain (first : Text) (others : List Text) (h : first = ['-'] ∨ first.head? ≠ some '-')

namespace Operands

def arguments : Operands → List Text
  | none => []
  | marked operands => ['-', '-'] :: operands
  | plain first others _ => first :: others

def positionals : Operands → List Text
  | none => []
  | marked operands => operands
  | plain first others _ => first :: others

theorem noneStarts (operands : Operands) : Setting.NoneStarts operands.arguments := by
  apply Setting.noneStarts_of_head?
  intro argument hfirst hoption
  cases operands with
  | none => simp [arguments] at hfirst
  | marked operands => exact hoption.1 (Option.some.inj hfirst).symm
  | plain first others h =>
    obtain rfl : first = argument := Option.some.inj hfirst
    exact h.elim hoption.2.1 fun hother => hother hoption.2.2

theorem arguments_injective : Function.Injective arguments := by
  have hmark {operands others : List Text} {first : Text}
      (h : first = ['-'] ∨ first.head? ≠ some '-') :
      ['-', '-'] :: operands ≠ first :: others := by
    intro heq
    obtain ⟨rfl, -⟩ := List.cons.inj heq
    simp at h
  intro left right h
  cases left with
  | none => cases right <;> simp [arguments] at h ⊢
  | marked operands =>
    cases right with
    | none => simp [arguments] at h
    | marked others => simpa [arguments] using h
    | plain first others hfirst => exact absurd h (hmark hfirst)
  | plain first others hfirst =>
    cases right with
    | none => simp [arguments] at h
    | marked operands => exact absurd h.symm (hmark hfirst)
    | plain other rest hother => simpa [arguments] using h

/-- Options and operands are told apart in one way only. -/
theorem eq_of_append_eq {settings others : List Setting} {operands otherOperands : Operands}
    (h : settings.flatMap Setting.arguments ++ operands.arguments =
      others.flatMap Setting.arguments ++ otherOperands.arguments) :
    others = settings ∧ otherOperands = operands := by
  have hforth := Setting.prefix_of_append_eq operands.noneStarts h
  have hback := Setting.prefix_of_append_eq otherOperands.noneStarts h.symm
  obtain rfl : others = settings := hforth.eq_of_length_le hback.length_le
  exact ⟨rfl, arguments_injective (List.append_cancel_left h).symm⟩

end Operands

/-- Reading fails at the first of these arguments, and why. -/
inductive Mistake : List Text → OptionError → Prop
  | illegal {argument : Text} (rest : List Text) (hoption : LooksLikeOption argument)
    (hunknown : ∀ flag : Flag, ¬flag.IsSpelled argument) :
    Mistake (argument :: rest) (.illegal argument)
  | missingValue {flag : Flag} {argument : Text} (hspelled : flag.IsSpelled argument)
    (hvalue : flag.takesValue = true) : Mistake [argument] (.missingValue argument)

theorem Mistake.noneStarts {rest : List Text} {error : OptionError} (h : Mistake rest error) :
    Setting.NoneStarts rest := by
  intro setting behind heq
  cases h with
  | illegal others hoption hunknown =>
    obtain ⟨rfl, -⟩ := List.cons.inj heq
    exact hunknown setting.flag setting.isSpelled
  | missingValue hspelled hvalue =>
    obtain ⟨rfl, hbehind⟩ := List.cons.inj heq
    rw [← hspelled.unique setting.isSpelled, hvalue] at hbehind
    simp at hbehind

/-- The message of a mistake names the argument at which it is. -/
theorem Mistake.exists_argument {rest : List Text} {error : OptionError} (h : Mistake rest error) :
    ∃ (argument : Text) (behind : List Text), rest = argument :: behind ∧
      ((∀ flag : Flag, ¬flag.IsSpelled argument) ∧
          error.shellError.message = "Illegal option ".toList ++ argument ∨
        behind = [] ∧ (∃ flag : Flag, flag.IsSpelled argument ∧ flag.takesValue = true) ∧
          error.shellError.message =
            "Flag ".toList ++ argument ++ " requires a value".toList) := by
  cases h with
  | @illegal argument behind _ hunknown => exact ⟨argument, behind, rfl, .inl ⟨hunknown, rfl⟩⟩
  | @missingValue flag argument hspelled hvalue =>
    exact ⟨argument, [], rfl, .inr ⟨rfl, ⟨flag, hspelled, hvalue⟩, rfl⟩⟩

/-- What is left behind the options. -/
inductive Remainder : List Text → Prop
  | operands (operands : Operands) : Remainder operands.arguments
  | mistake {rest : List Text} {error : OptionError} (h : Mistake rest error) : Remainder rest

/-! ### Reading -/

namespace Options

theorem isPositional_eq_false_iff {argument : Text} :
    argument ≠ ['-', '-'] ∧ isPositional argument = false ↔ LooksLikeOption argument := by
  simp [isPositional, LooksLikeOption, and_comm]

def setAll (options : Options) (settings : List Setting) : Options :=
  settings.foldl (fun options setting => options.set setting.flag setting.value) options

theorem value?_setAll (options : Options) (settings : List Setting) (flag : Flag) :
    (options.setAll settings).value? flag =
      (Setting.lastValue? flag settings).or (options.value? flag) := by
  induction settings generalizing options with
  | nil => rfl
  | cons setting settings ih =>
    have hlater := ih (options.set setting.flag setting.value)
    rw [setAll, List.foldl_cons, ← setAll, hlater, Setting.lastValue?, Setting.lastValue?,
      List.reverse_cons, List.find?_append, Option.map_or, Option.or_assoc]
    by_cases hflag : setting.flag = flag
    · simp [set, hflag]
    · have hother : flag ≠ setting.flag := Ne.symm hflag
      simp [set, hflag, hother]

theorem positionals_setAll (options : Options) (settings : List Setting) :
    (options.setAll settings).positionals = options.positionals := by
  induction settings generalizing options with
  | nil => rfl
  | cons setting settings ih => exact ih (options.set setting.flag setting.value)

theorem parse_option (options : Options) {argument : Text} (h : LooksLikeOption argument)
    (rest : List Text) :
    options.parse (argument :: rest) =
      match Flag.ofArgument? argument with
      | none => (some (.illegal argument), options)
      | some flag =>
        if flag.takesValue then
          match rest with
          | [] => (some (.missingValue argument), options)
          | value :: rest => (options.set flag value).parse rest
        else
          (options.set flag given).parse rest := by
  obtain ⟨hmark, hpositional⟩ := isPositional_eq_false_iff.2 h
  rw [parse.eq_def]
  simp only [if_neg hmark, hpositional]
  rfl

theorem parse_setting (options : Options) (setting : Setting) (rest : List Text) :
    options.parse (setting.arguments ++ rest) =
      (options.set setting.flag setting.value).parse rest := by
  obtain ⟨flag, spelling, value, hspelled, hvalue⟩ := setting
  rw [Setting.arguments, List.cons_append, parse_option options hspelled.looksLikeOption,
    Flag.ofArgument?_of_isSpelled hspelled]
  cases htakes : flag.takesValue with
  | true => simp [htakes]
  | false => simp [htakes, hvalue htakes]

/-- Options are read one after the other. -/
theorem parse_settings (options : Options) (settings : List Setting) (rest : List Text) :
    options.parse (settings.flatMap Setting.arguments ++ rest) =
      (options.setAll settings).parse rest := by
  induction settings generalizing options with
  | nil => rfl
  | cons setting settings ih =>
    rw [List.flatMap_cons, List.append_assoc, parse_setting, ih]
    rfl

theorem parse_operands (options : Options) (operands : Operands) :
    options.parse operands.arguments = (none, options.addPositionals operands.positionals) := by
  cases operands with
  | none => simp [Operands.arguments, Operands.positionals, parse, addPositionals]
  | marked operands => simp [Operands.arguments, Operands.positionals, parse]
  | plain first others h =>
    have hmark : first ≠ ['-', '-'] := by
      rintro rfl
      simp at h
    have hpositional : isPositional first = true := by
      simpa [isPositional, or_comm] using h
    rw [Operands.arguments, Operands.positionals, parse.eq_def]
    simp only [if_neg hmark, hpositional]
    rfl

theorem parse_mistake (options : Options) {rest : List Text} {error : OptionError}
    (h : Mistake rest error) : options.parse rest = (some error, options) := by
  cases h with
  | illegal rest hoption hunknown =>
    rw [parse_option options hoption, Flag.ofArgument?_eq_none_iff.2 hunknown]
  | missingValue hspelled hvalue =>
    rw [parse_option options hspelled.looksLikeOption, Flag.ofArgument?_of_isSpelled hspelled]
    simp [hvalue]

theorem parse_settings_operands (options : Options) (settings : List Setting)
    (operands : Operands) :
    options.parse (settings.flatMap Setting.arguments ++ operands.arguments) =
      (none, (options.setAll settings).addPositionals operands.positionals) := by
  rw [parse_settings, parse_operands]

theorem parse_settings_mistake (options : Options) (settings : List Setting) {rest : List Text}
    {error : OptionError} (h : Mistake rest error) :
    options.parse (settings.flatMap Setting.arguments ++ rest) =
      (some error, options.setAll settings) := by
  rw [parse_settings, parse_mistake _ h]

/-- Every argument list is options and then operands or a mistake. -/
theorem exists_remainder (arguments : List Text) :
    ∃ (settings : List Setting) (rest : List Text),
      arguments = settings.flatMap Setting.arguments ++ rest ∧ Remainder rest := by
  -- The induction follows a reading, on top of whatever was read before.
  suffices h : Options → ∃ (settings : List Setting) (rest : List Text),
      arguments = settings.flatMap Setting.arguments ++ rest ∧ Remainder rest from h {}
  intro options
  fun_induction parse options arguments with
  | case1 options => exact ⟨[], [], rfl, .operands .none⟩
  | case2 options rest => exact ⟨[], _, rfl, .operands (.marked rest)⟩
  | case3 options argument rest _ hpositional =>
    have hfirst : argument = ['-'] ∨ argument.head? ≠ some '-' := by
      simpa [isPositional, or_comm] using hpositional
    exact ⟨[], _, rfl, .operands (.plain argument rest hfirst)⟩
  | case4 options argument rest hmark hpositional hunknown =>
    have hoption := isPositional_eq_false_iff.1 ⟨hmark, by simpa using hpositional⟩
    exact ⟨[], _, rfl, .mistake (.illegal rest hoption (Flag.ofArgument?_eq_none_iff.1 hunknown))⟩
  | case5 options argument hmark hpositional flag hflag htakes =>
    have hspelled := Flag.isSpelled_of_ofArgument? hflag
    exact ⟨[], _, rfl, .mistake (.missingValue hspelled htakes)⟩
  | case6 options argument hmark hpositional flag hflag htakes value behind ih =>
    obtain ⟨settings, rest, rfl, hrest⟩ := ih
    let setting : Setting :=
      { flag, spelling := argument, value, isSpelled := Flag.isSpelled_of_ofArgument? hflag
        value_eq := by simp [htakes] }
    exact ⟨setting :: settings, rest, by simp [Setting.arguments, setting, htakes], hrest⟩
  | case7 options argument behind hmark hpositional flag hflag htakes ih =>
    obtain ⟨settings, rest, rfl, hrest⟩ := ih
    let setting : Setting :=
      { flag, spelling := argument, value := given
        isSpelled := Flag.isSpelled_of_ofArgument? hflag, value_eq := fun _ => rfl }
    exact ⟨setting :: settings, rest, by simp [Setting.arguments, setting, htakes], hrest⟩

/-- Options are read exactly by their grammar, on top of whatever was read before. They are accepted if they are settings and then operands, which they are in one way at most; then each flag has the value of its last setting, or else the one from before, and the operands are added to the positional arguments. If they are not accepted, then no positional argument is added and the flags are as behind the longest run of settings that the arguments begin with; the message names the argument that follows, which either is no flag at all or a flag that lacks its value. -/
theorem parse_follows_grammar (options : Options) (arguments : List Text) :
    ((options.parse arguments).1 = none ↔
        ∃ (settings : List Setting) (operands : Operands),
          arguments = settings.flatMap Setting.arguments ++ operands.arguments) ∧
      (∀ (settings : List Setting) (operands : Operands),
        arguments = settings.flatMap Setting.arguments ++ operands.arguments →
          (∀ flag, (options.parse arguments).2.value? flag =
            (Setting.lastValue? flag settings).or (options.value? flag)) ∧
          (options.parse arguments).2.positionals = options.positionals ++ operands.positionals ∧
          ∀ (others : List Setting) (otherOperands : Operands),
            arguments = others.flatMap Setting.arguments ++ otherOperands.arguments →
              others = settings ∧ otherOperands = operands) ∧
      ∀ error, (options.parse arguments).1 = some error →
        ∃ (settings : List Setting) (argument : Text) (rest : List Text),
          arguments = settings.flatMap Setting.arguments ++ argument :: rest ∧
          (∀ (others : List Setting) (behind : List Text),
            arguments = others.flatMap Setting.arguments ++ behind → others <+: settings) ∧
          (options.parse arguments).2 =
            (options.parse (settings.flatMap Setting.arguments)).2 ∧
          (∀ flag, (options.parse arguments).2.value? flag =
            (Setting.lastValue? flag settings).or (options.value? flag)) ∧
          (options.parse arguments).2.positionals = options.positionals ∧
          ((∀ flag : Flag, ¬flag.IsSpelled argument) ∧
              error.shellError.message = "Illegal option ".toList ++ argument ∨
            rest = [] ∧ (∃ flag : Flag, flag.IsSpelled argument ∧ flag.takesValue = true) ∧
              error.shellError.message =
                "Flag ".toList ++ argument ++ " requires a value".toList) := by
  obtain ⟨settings, rest, rfl, hrest⟩ := exists_remainder arguments
  refine ⟨⟨?_, ?_⟩, ?_, ?_⟩
  · intro hnone
    cases hrest with
    | operands operands => exact ⟨settings, operands, rfl⟩
    | mistake hmistake =>
      rw [parse_settings_mistake options settings hmistake] at hnone
      simp at hnone
  · rintro ⟨others, operands, hothers⟩
    rw [hothers, parse_settings_operands]
  · intro others operands hothers
    rw [hothers, parse_settings_operands]
    refine ⟨value?_setAll options others, ?_, ?_⟩
    · exact congrArg (· ++ operands.positionals) (positionals_setAll options others)
    · intro more moreOperands hmore
      exact Operands.eq_of_append_eq hmore
  · intro error herror
    cases hrest with
    | operands operands =>
      rw [parse_settings_operands] at herror
      simp at herror
    | @mistake _ found hmistake =>
      have hsettings : options.parse (settings.flatMap Setting.arguments) =
          (none, options.setAll settings) := by
        have hnothing := options.parse_settings settings []
        rwa [List.append_nil, parse] at hnothing
      rw [parse_settings_mistake options settings hmistake] at herror ⊢
      obtain rfl : found = error := Option.some.inj herror
      have hlongest (others : List Setting) (behind : List Text) (h : _ = _ ++ behind) :
          others <+: settings :=
        Setting.prefix_of_append_eq hmistake.noneStarts h
      obtain ⟨argument, behind, rfl, hmessage⟩ := hmistake.exists_argument
      exact ⟨settings, argument, behind, rfl, hlongest, by rw [hsettings],
        value?_setAll options settings, positionals_setAll options settings, hmessage⟩

example :
    let read := (({} : Options).parse ["-c".toList, "--".toList, "--debug".toList, ['-'], "-q".toList]).2
    (read.value? .config, read.value? .debug, read.value? .quiet, read.positionals) =
      (some "--".toList, some "true".toList, none, [['-'], "-q".toList]) := by decide

end Options

end CommandShell
