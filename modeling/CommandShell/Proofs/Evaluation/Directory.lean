import Mathlib.Control.Monad.Basic
import CommandShell.Proofs.Evaluation.Delivery
import CommandShell.Proofs.Evaluation.Trace
import CommandShell.Proofs.FileTree.Physical

/-!
# The working directory and its variable

The directory that a session works in is known twice: to the host, and to the session as the value of `PWD`. Nothing ties the two together but `cd`, which moves first, asks the host where that led, and notes it. The note can fail only if a path holds a NUL, and what it is noted from is `PWD` itself or the path of the working directory. So as long as `PWD` is what `cd` made it, the next `cd` cannot fail between asking and noting, and the two stay together on any number of lines. Only `setenv PWD` can part them, and a `cd` into a directory of which the host does not tell the path: one that was removed, or one so deep that its path has to be put together on a way that the process cannot see.
-/

namespace CommandShell

/-- The words that ask for the edit. -/
def Edit.words : Edit → List Text
  | set name value => [Builtin.setenv.name, name, value]
  | erase name => [Builtin.unsetenv.name, name]

namespace Surroundings

/-- `PWD` is set, and to the path of the working directory. -/
def PwdIsNoted (surroundings : Surroundings) : Prop :=
  ∃ directory, surroundings.host.location.path? = some (.ofText directory) ∧
    surroundings.environment.get? "PWD".toList = some directory

/-- `PWD` is unset or set to the path of the working directory. -/
def PwdIsCurrent (surroundings : Surroundings) : Prop :=
  surroundings.environment.get? "PWD".toList = none ∨ surroundings.PwdIsNoted

/-- What is true of any session on a file tree with text for names, as long as its working directory is not removed. -/
structure IsSound (surroundings : Surroundings) : Prop where
  wellFormed : surroundings.environment.WellFormed
  named : ∀ name ∈ surroundings.host.tree.top.names, 0 ∉ name ∧ name.IsText
  placed : surroundings.host.IsPlaced

namespace IsSound

variable {surroundings : Surroundings} (h : surroundings.IsSound)
include h

/-- What the host tells of the working directory is text without a NUL. -/
theorem of_workingDirectory {path : HostPath} (hpath : surroundings.host.workingDirectory = .ok path) :
    surroundings.host.location.path? = some (.ofText path.shown) ∧ Environment.nul ∉ path.shown := by
  obtain ⟨hlocation, -⟩ := Host.workingDirectory_eq_ok_iff.1 hpath
  have htext := Location.ofText_shown_path (fun name hname => (h.named name (h.placed hname)).2) hlocation
  refine ⟨by rw [htext, hlocation], ?_⟩
  exact h.placed.nul_notMem_shown (fun name hname => (h.named name hname).1) hpath

theorem enter? {path : HostPath} {host : Host} (henter : surroundings.host.enter? path = some host) :
    IsSound { surroundings with host } := by
  obtain ⟨hplaced, htree⟩ := Host.isPlaced_of_enter? henter
  refine ⟨h.wellFormed, ?_, hplaced⟩
  show ∀ name ∈ host.tree.top.names, 0 ∉ name ∧ name.IsText
  rw [htree]
  exact h.named

theorem edit {edit : Edit} {environment : Environment}
    (hedit : surroundings.environment.edit edit = .ok environment) :
    IsSound { surroundings with environment } :=
  ⟨h.wellFormed.edit hedit, h.named, h.placed⟩

/-- Of the host only the tree and the place in it count. -/
theorem withHost {host : Host} (htree : host.tree = surroundings.host.tree)
    (hlocation : host.location = surroundings.host.location) : IsSound { surroundings with host } := by
  refine ⟨h.wellFormed, ?_, ?_⟩
  · show ∀ name ∈ host.tree.top.names, 0 ∉ name ∧ name.IsText
    rw [htree]
    exact h.named
  · show host.location.place ⊆ host.tree.top.names
    rw [hlocation, htree]
    exact h.placed

end IsSound

end Surroundings

/-! ### Commands that do not move -/

theorem Shell.surroundings_conclude (shell : Shell) (answer : Except ShellError Status) :
    (shell.conclude answer).surroundings = shell.surroundings := by
  cases answer <;> rfl

namespace Builtin

theorem IsPlanned.surroundings {session : Session} {host : Host}
    {run : Sink → Except BuiltinError Status × Shell} (h : IsPlanned session host run) (sink : Sink) :
    (run sink).2.surroundings = { environment := session.environment, host } := by
  obtain ⟨texts, answer, -, hrun⟩ := h
  rw [hrun, deliver]
  split <;> rfl

/-- The words changed nothing, or they made an edit, or they ran a command that is no builtin and may have changed the host. -/
inductive EditOutcome (before : Surroundings) (words : List Text) : Surroundings → Prop
  | unchanged : EditOutcome before words before
  | ran (name : Text) (host : Host) (hname : words.head? = some name)
    (hexternal : Builtin.ofName? name = none) : EditOutcome before words { before with host }
  | edited (edit : Edit) (environment : Environment) (hwords : words = edit.words)
    (hedit : before.environment.edit edit = .ok environment) :
    EditOutcome before words { before with environment }

theorem editOutcome_runSetenv (shell : Shell) (arguments : List Text) :
    EditOutcome shell.surroundings (setenv.name :: arguments)
      (runSetenv shell arguments).2.surroundings := by
  rw [runSetenv.eq_def]
  split
  · next name value =>
    cases hset : shell.session.environment.set name value with
    | error error => exact .unchanged
    | ok environment => exact .edited (.set name value) environment rfl hset
  · exact .unchanged

theorem editOutcome_runUnsetenv (shell : Shell) (arguments : List Text) :
    EditOutcome shell.surroundings (unsetenv.name :: arguments)
      (runUnsetenv shell arguments).2.surroundings := by
  rw [runUnsetenv.eq_def]
  split
  · next name =>
    cases herase : shell.session.environment.erase name with
    | error error => exact .unchanged
    | ok environment => exact .edited (.erase name) environment rfl herase
  · exact .unchanged

theorem editOutcome_of_eq {before after : Surroundings} (h : after = before) (words : List Text) :
    EditOutcome before words after := by
  rw [h]
  exact .unchanged

theorem editOutcome_run (shell : Shell) {builtin : Builtin} (h : builtin ≠ cd)
    (arguments : List Text) :
    EditOutcome shell.surroundings (builtin.name :: arguments)
      (builtin.run shell arguments).2.surroundings := by
  cases builtin with
  | cd => exact absurd rfl h
  | env => exact editOutcome_of_eq ((isPlanned_runEnv shell arguments).surroundings shell.sink) _
  | exit =>
    obtain ⟨exitRequest, hplanned⟩ := isPlanned_runExit shell arguments
    exact editOutcome_of_eq (hplanned.surroundings shell.sink) _
  | help => exact editOutcome_of_eq ((isPlanned_runHelp shell arguments).surroundings shell.sink) _
  | setenv => exact editOutcome_runSetenv shell arguments
  | unsetenv => exact editOutcome_runUnsetenv shell arguments

end Builtin

theorem Shell.editOutcome_dispatch [Children] (shell : Shell) {name : Text} (hname : name ≠ Builtin.cd.name)
    (arguments : List Text) :
    Builtin.EditOutcome shell.surroundings (name :: arguments)
      (shell.dispatch name arguments).2.surroundings := by
  rw [dispatch]
  cases hbuiltin : Builtin.ofName? name with
  | none => exact .ran name _ rfl hbuiltin
  | some builtin =>
    have hsame := Builtin.name_of_ofName? hbuiltin
    have hother : builtin ≠ .cd := by
      intro hcd
      rw [hcd] at hsame
      exact hname hsame.symm
    rw [← hsame]
    exact Builtin.editOutcome_run shell hother arguments

/-! ### Moves -/

theorem Shell.dispatch_cd [Children] (shell : Shell) (arguments : List Text) :
    shell.dispatch Builtin.cd.name arguments =
      ((Builtin.runCd shell arguments).1.mapError (.builtin Builtin.cd.name),
        (Builtin.runCd shell arguments).2) :=
  shell.dispatch_name .cd arguments

/-- The command was not carried out: its arguments or the request were refused, or the host did not tell a path. -/
def BuiltinError.IsRefusal (error : BuiltinError) : Prop :=
  (∃ detail, error = .badArguments detail ∨ error = .failed detail) ∨
    ∃ failure, failure ≠ .outputClosed ∧ error = .file failure

theorem BuiltinError.IsRefusal.ne_outputClosed {error : BuiltinError} (h : error.IsRefusal) :
    error ≠ .file .outputClosed := by
  rintro rfl
  rcases h with ⟨detail, hdetail | hdetail⟩ | ⟨failure, hother, hfailure⟩
  · simp at hdetail
  · simp at hdetail
  · exact hother (BuiltinError.file.inj hfailure).symm

namespace Builtin

theorem isRefusal_of_workingDirectory {host : Host} {error : FileError}
    (h : host.workingDirectory = .error error) : (BuiltinError.file error).IsRefusal :=
  .inr ⟨error, Host.ne_outputClosed_of_workingDirectory h, rfl⟩

theorem isRefusal_of_directoryFor {shell : Shell} {argument : Option Text} {error : BuiltinError}
    (h : directoryFor shell argument = .error error) : error.IsRefusal := by
  rw [directoryFor.eq_def] at h
  split at h
  case h_4 =>
    split at h
    · simp at h
    · obtain ⟨failure, hdirectory, rfl⟩ := eq_error_of_mapError h
      exact isRefusal_of_workingDirectory hdirectory
  all_goals
    split at h
    · simp at h
    · rw [← Except.error.inj h]
      exact .inl ⟨_, .inr rfl⟩

/-- The directory that is left is what `PWD` says, and else what the host tells. -/
theorem leftDirectory_cases (shell : Shell) :
    (∃ left, leftDirectory shell = .ok left ∧
      (shell.session.environment.get? "PWD".toList = some left ∨
        shell.session.environment.get? "PWD".toList = none ∧
          ∃ path, shell.host.workingDirectory = .ok path ∧ path.shown = left)) ∨
      ∃ error, leftDirectory shell = .error error ∧ error.IsRefusal := by
  rw [leftDirectory]
  cases shell.session.environment.get? "PWD".toList with
  | some value => exact .inl ⟨value, rfl, .inl rfl⟩
  | none =>
    cases hpath : shell.host.workingDirectory with
    | ok path => exact .inl ⟨path.shown, rfl, .inr ⟨rfl, path, rfl, rfl⟩⟩
    | error error => exact .inr ⟨.file error, rfl, isRefusal_of_workingDirectory hpath⟩

theorem origin_of_leftDirectory {shell : Shell} {left : Text} (h : leftDirectory shell = .ok left) :
    shell.session.environment.get? "PWD".toList = some left ∨
      shell.session.environment.get? "PWD".toList = none ∧
        ∃ path, shell.host.workingDirectory = .ok path ∧ path.shown = left := by
  rcases leftDirectory_cases shell with ⟨known, hknown, horigin⟩ | ⟨error, herror, -⟩
  · rwa [Except.ok.inj (h.symm.trans hknown)]
  · exact absurd (herror.symm.trans h) (by simp)

theorem isRefusal_of_leftDirectory {shell : Shell} {error : BuiltinError}
    (h : leftDirectory shell = .error error) : error.IsRefusal := by
  rcases leftDirectory_cases shell with ⟨left, hleft, -⟩ | ⟨failure, hfailure, hrefusal⟩
  · exact absurd (hleft.symm.trans h) (by simp)
  · rwa [Except.error.inj (h.symm.trans hfailure)]

/-- With this argument `cd` enters the directory of `host` and knows the directory that it leaves. -/
structure Enters (shell : Shell) (argument : Option Text) (left : Text) (host : Host) : Prop where
  target : ∃ target, directoryFor shell argument = .ok target ∧ shell.host.enter? target = some host
  left : leftDirectory shell = .ok left

/-- A `cd` with these arguments enters the directory of `host`, and then the host does not tell its path. -/
def EntersUntold (shell : Shell) (arguments : List Text) (host : Host) (error : FileError) : Prop :=
  ∃ argument target left, arguments = Option.toList argument ∧
    directoryFor shell argument = .ok target ∧ leftDirectory shell = .ok left ∧
    shell.host.enter? target = some host ∧ host.workingDirectory = .error error

theorem runCd_toList (shell : Shell) (argument : Option Text) :
    runCd shell argument.toList =
      match directoryFor shell argument with
      | .error error => (.error error, shell)
      | .ok target =>
        match leftDirectory shell with
        | .error error => (.error error, shell)
        | .ok left =>
          move shell target (argument.getD target.shown) left (argument == some ['-']) := by
  cases argument <;> rfl

/-- A `cd` into a directory without a path fails, but behind the move: the session is in the new directory, and its variables are as before. -/
theorem runCd_of_entersUntold {shell : Shell} {arguments : List Text} {host : Host}
    {error : FileError} (h : EntersUntold shell arguments host error) :
    runCd shell arguments = (.error (.file error), { shell with host }) := by
  obtain ⟨argument, target, left, rfl, hdirectory, hleft, henter, herror⟩ := h
  rw [runCd_toList, hdirectory, hleft]
  dsimp only
  rw [move, henter]
  dsimp only
  rw [herror]

theorem not_entersUntold_of_isSome {shell : Shell} {arguments : List Text}
    (h : (runCd shell arguments).2.host.workingDirectory.toOption.isSome = true) (host : Host)
    (error : FileError) : ¬EntersUntold shell arguments host error := by
  intro huntold
  rw [runCd_of_entersUntold huntold] at h
  obtain ⟨argument, target, left, -, -, -, -, herror⟩ := huntold
  rw [herror] at h
  simp [Except.toOption] at h

/-- The shell behind a move that was noted. -/
def arrivedAt (shell : Shell) (host : Host) (environment : Environment) : Shell :=
  { (shell.withEnvironment environment) with host }

theorem runCd_of_enters {shell : Shell} {argument : Option Text} {left : Text} {host : Host}
    {entered : HostPath} {environment : Environment} (h : Enters shell argument left host)
    (hentered : host.workingDirectory = .ok entered)
    (hnote : noteMove shell.session.environment left entered.shown = .ok environment) :
    runCd shell argument.toList =
      if argument = some ['-'] then
        writeAnswer (arrivedAt shell host environment) [entered.shown ++ ['\n']]
      else (.ok 0, arrivedAt shell host environment) := by
  obtain ⟨⟨target, hdirectory, henter⟩, hleft⟩ := h
  rw [runCd_toList, hdirectory, hleft]
  dsimp only
  rw [move, henter]
  dsimp only
  rw [hentered]
  dsimp only
  rw [hnote]
  simp only [beq_iff_eq]
  rfl

/-- How `cd` can end: it is refused, it is lost on the way, or it arrives, and then prints where it is if it was asked to go back. -/
inductive CdOutcome (shell : Shell) : List Text → Except BuiltinError Status × Shell → Prop
  | refused (arguments : List Text) (error : BuiltinError) (herror : error.IsRefusal) :
    CdOutcome shell arguments (.error error, shell)
  | untold (arguments : List Text) (host : Host) (error : FileError)
    (h : EntersUntold shell arguments host error) :
    CdOutcome shell arguments (.error (.file error), { shell with host })
  | unnoted (argument : Option Text) (left : Text) (host : Host) (entered : HostPath)
    (error : VariableError) (henter : Enters shell argument left host)
    (hentered : host.workingDirectory = .ok entered)
    (herror : noteMove shell.session.environment left entered.shown = .error error) :
    CdOutcome shell argument.toList (.error (.environment error), { shell with host })
  | noted (argument : Option Text) (left : Text) (host : Host) (entered : HostPath)
    (environment : Environment) (henter : Enters shell argument left host)
    (hentered : host.workingDirectory = .ok entered)
    (hnote : noteMove shell.session.environment left entered.shown = .ok environment) :
    CdOutcome shell argument.toList
      (if argument = some ['-'] then
        writeAnswer (arrivedAt shell host environment) [entered.shown ++ ['\n']]
      else (.ok 0, arrivedAt shell host environment))

theorem cdOutcome_toList (shell : Shell) (argument : Option Text) :
    CdOutcome shell argument.toList (runCd shell argument.toList) := by
  rw [runCd_toList]
  cases hdirectory : directoryFor shell argument with
  | error error => exact .refused _ error (isRefusal_of_directoryFor hdirectory)
  | ok target =>
    dsimp only
    cases hleft : leftDirectory shell with
    | error error => exact .refused _ error (isRefusal_of_leftDirectory hleft)
    | ok left =>
      dsimp only
      rw [move]
      cases henter : shell.host.enter? target with
      | none => exact .refused _ _ (.inl ⟨_, .inr rfl⟩)
      | some host =>
        have henters : Enters shell argument left host := ⟨⟨target, hdirectory, henter⟩, hleft⟩
        dsimp only
        cases hentered : host.workingDirectory with
        | error error => exact .untold _ host error ⟨argument, target, left, rfl, hdirectory, hleft, henter, hentered⟩
        | ok entered =>
          dsimp only
          cases hnote : noteMove shell.session.environment left entered.shown with
          | error error => exact .unnoted argument left host entered error henters hentered hnote
          | ok environment =>
            have hnoted :=
              CdOutcome.noted argument left host entered environment henters hentered hnote
            simp only [beq_iff_eq]
            exact hnoted

theorem cdOutcome_runCd (shell : Shell) (arguments : List Text) :
    CdOutcome shell arguments (runCd shell arguments) := by
  rcases arguments with _ | ⟨argument, _ | ⟨other, rest⟩⟩
  · exact cdOutcome_toList shell none
  · exact cdOutcome_toList shell (some argument)
  · exact .refused _ .tooManyArguments (.inl ⟨_, .inl rfl⟩)

/-- Writing the answer changes neither variables nor host. -/
theorem surroundings_noted (shell : Shell) (host : Host) (environment : Environment)
    (argument : Option Text) (texts : List Text) :
    (if argument = some ['-'] then writeAnswer (arrivedAt shell host environment) texts
      else (.ok 0, arrivedAt shell host environment)).2.surroundings = { environment, host } := by
  split
  · exact (isPlanned_writeAnswer (arrivedAt shell host environment) texts).surroundings shell.sink
  · rfl

/-- What `cd` notes as the directory that it leaves holds no NUL. -/
theorem nul_notMem_leftDirectory {shell : Shell} (hwf : shell.session.environment.WellFormed)
    (hplaced : shell.host.IsPlaced) (hnames : ∀ name ∈ shell.host.tree.top.names, 0 ∉ name)
    {left : Text} (h : leftDirectory shell = .ok left) : Environment.nul ∉ left := by
  rcases origin_of_leftDirectory h with hvalue | ⟨-, path, hpath, rfl⟩
  · exact (hwf.settable_of_get? hvalue).2.2.2
  · exact hplaced.nul_notMem_shown hnames hpath

theorem exists_noteMove (environment : Environment) {left entered : Text}
    (hleft : Environment.nul ∉ left) (hentered : Environment.nul ∉ entered) :
    ∃ noted, noteMove environment left entered = .ok noted := by
  have hold : Environment.Settable "OLDPWD".toList left :=
    ⟨by decide, by decide, by decide, hleft⟩
  have hnew : Environment.Settable "PWD".toList entered :=
    ⟨by decide, by decide, by decide, hentered⟩
  rw [noteMove, environment.set_of_settable hold]
  exact ⟨_, Environment.set_of_settable _ hnew⟩

/-- A `cd` that is told where it is also notes it, whatever the bytes of the two paths. -/
theorem Enters.exists_noteMove {shell : Shell} {argument : Option Text} {left : Text} {host : Host}
    (h : Enters shell argument left host) (hwf : shell.session.environment.WellFormed)
    (hplaced : shell.host.IsPlaced) (hnames : ∀ name ∈ shell.host.tree.top.names, 0 ∉ name)
    {entered : HostPath} (hentered : host.workingDirectory = .ok entered) :
    ∃ noted, noteMove shell.session.environment left entered.shown = .ok noted := by
  obtain ⟨target, -, henter⟩ := h.target
  have hleftNul := nul_notMem_leftDirectory hwf hplaced hnames h.left
  obtain ⟨hthere, htree⟩ := Host.isPlaced_of_enter? henter
  rw [← htree] at hnames
  exact Builtin.exists_noteMove _ hleftNul (hthere.nul_notMem_shown hnames hentered)

theorem CdOutcome.refused_or_noted {shell : Shell} {arguments : List Text}
    {run : Except BuiltinError Status × Shell} (h : CdOutcome shell arguments run)
    (hsound : shell.surroundings.IsSound)
    (htold : ∀ host error, ¬EntersUntold shell arguments host error) :
    (∃ error, run.1 = .error error ∧ error ≠ .file .outputClosed ∧
        run.2.surroundings = shell.surroundings) ∨
      run.2.surroundings.IsSound ∧ run.2.surroundings.PwdIsNoted := by
  cases h with
  | refused arguments error herror => exact .inl ⟨error, rfl, herror.ne_outputClosed, rfl⟩
  | untold arguments host error huntold => exact absurd huntold (htold host error)
  | unnoted argument left host entered error henter hentered herror =>
    obtain ⟨noted, hnoted⟩ := henter.exists_noteMove hsound.wellFormed hsound.placed
      (fun name hname => (hsound.named name hname).1) hentered
    rw [hnoted] at herror
    simp at herror
  | noted argument left host entered environment henter hentered hnote =>
    obtain ⟨target, -, hhost⟩ := henter.target
    obtain ⟨middle, hold, hnew⟩ := edits_of_noteMove hnote
    have hmiddle : Surroundings.IsSound { environment := middle, host } := (hsound.enter? hhost).edit hold
    have hvalue := hmiddle.wellFormed.get?_of_edit hnew "PWD".toList
    rw [surroundings_noted]
    exact .inr ⟨hmiddle.edit hnew, entered.shown, (hmiddle.of_workingDirectory hentered).1, hvalue⟩

end Builtin

/-! ### Executed commands -/

namespace Execution

variable [Children]

/-- A `cd` that moved: it ended well, or in another directory, or only its answer was not written. -/
def Moved (execution : Execution) : Prop :=
  execution.argv.head? = some Builtin.cd.name ∧
    ((∃ status, execution.answer? = some (.ok status)) ∨
      execution.after.host.location ≠ execution.before.host.location ∨
      execution.answer? = some (.error (.builtin Builtin.cd.name (.file .outputClosed))))

/-- The command leaves the tree alone, and if it is no builtin also the place in it where the shell works. -/
structure IsStill (execution : Execution) : Prop where
  tree : execution.after.host.tree = execution.before.host.tree
  location : ∀ name, execution.argv.head? = some name → Builtin.ofName? name = none →
    execution.after.host.location = execution.before.host.location

/-- The command is no `cd` into a directory of which the host does not tell the path. -/
def IsTold (execution : Execution) : Prop :=
  ∀ arguments host error, execution.argv = Builtin.cd.name :: arguments →
    ¬Builtin.EntersUntold execution.before arguments host error

theorem surroundings_after_cons {execution : Execution} {name : Text} {arguments : List Text}
    (h : execution.argv = name :: arguments) :
    execution.after.surroundings =
      ((execution.before.withArgv (name :: arguments)).dispatch name arguments).2.surroundings := by
  rw [execution.after_cons h]
  exact Shell.surroundings_conclude _ _

/-- Behind a `cd` that is not told where it is the session works in the new directory with its old variables. -/
theorem surroundings_after_of_entersUntold {execution : Execution} {arguments : List Text} {host : Host}
    {error : FileError} (hargv : execution.argv = Builtin.cd.name :: arguments)
    (huntold : Builtin.EntersUntold execution.before arguments host error) :
    execution.answer? = some (.error (.builtin Builtin.cd.name (.file error))) ∧
      execution.after.surroundings = { execution.before.surroundings with host } := by
  -- The words of the command are part of the session, but no `cd` looks at them.
  have huntold : Builtin.EntersUntold
      (execution.before.withArgv (Builtin.cd.name :: arguments)) arguments host error := huntold
  have hrun := Builtin.runCd_of_entersUntold huntold
  rw [execution.answer?_cons hargv, surroundings_after_cons hargv, Shell.dispatch_cd, hrun]
  exact ⟨rfl, rfl⟩

theorem isTold_of_isSome {execution : Execution}
    (h : execution.after.host.workingDirectory.toOption.isSome = true) : execution.IsTold := by
  intro arguments host error hargv huntold
  have hafter := (surroundings_after_of_entersUntold hargv huntold).2
  obtain ⟨argument, target, left, -, -, -, -, herror⟩ := huntold
  have hhost : execution.after.host = host := congrArg Surroundings.host hafter
  rw [hhost, herror] at h
  simp [Except.toOption] at h

/-- A `cd` that is refused for another reason than its output has not moved. -/
theorem not_moved_of_refused {execution : Execution} {error : BuiltinError}
    (hanswer : execution.answer? = some (.error (.builtin Builtin.cd.name error)))
    (herror : error ≠ .file .outputClosed)
    (hsame : execution.after.surroundings = execution.before.surroundings) : ¬execution.Moved := by
  rintro ⟨-, ⟨status, hok⟩ | hlocation | hclosed⟩
  · rw [hanswer] at hok
    simp at hok
  · exact hlocation (congrArg (fun surroundings => surroundings.host.location) hsame)
  · rw [hanswer] at hclosed
    exact herror (by simpa using hclosed)

/-- What a command can do to its surroundings if it is told where it is. -/
theorem edited_or_noted (execution : Execution) (hsound : execution.before.surroundings.IsSound)
    (htold : execution.IsTold) :
    (¬execution.Moved ∧ Builtin.EditOutcome execution.before.surroundings execution.argv
        execution.after.surroundings) ∨
      execution.after.surroundings.IsSound ∧ execution.after.surroundings.PwdIsNoted := by
  cases hargv : execution.argv with
  | nil =>
    refine .inl ⟨?_, ?_⟩
    · intro hmoved
      simp [Moved, hargv] at hmoved
    · rw [after_eq_perform, hargv]
      exact .unchanged
  | cons name arguments =>
    have hafter := surroundings_after_cons hargv
    by_cases hname : name = Builtin.cd.name
    · have hanswer := execution.answer?_cons hargv
      rw [hname] at hargv
      rw [hname, Shell.dispatch_cd] at hafter hanswer
      have houtcome :=
        Builtin.cdOutcome_runCd (execution.before.withArgv (Builtin.cd.name :: arguments)) arguments
      rcases houtcome.refused_or_noted hsound fun host error => htold arguments host error hargv with
        ⟨error, herror, hother, hsame⟩ | hnoted
      · rw [herror] at hanswer
        rw [hsame] at hafter
        refine .inl ⟨not_moved_of_refused hanswer hother hafter, ?_⟩
        exact Builtin.editOutcome_of_eq hafter _
      · rw [hafter]
        exact .inr hnoted
    · refine .inl ⟨?_, ?_⟩
      · intro hmoved
        have hhead := hmoved.1
        rw [hargv] at hhead
        exact hname (Option.some.inj hhead)
      · rw [hafter]
        exact Shell.editOutcome_dispatch (execution.before.withArgv (name :: arguments)) hname arguments

theorem noted_of_moved {execution : Execution} (hmoved : execution.Moved)
    (hsound : execution.before.surroundings.IsSound) (htold : execution.IsTold) :
    execution.after.surroundings.PwdIsNoted := by
  rcases execution.edited_or_noted hsound htold with ⟨hstayed, -⟩ | ⟨-, hnoted⟩
  · exact absurd hmoved hstayed
  · exact hnoted

end Execution

/-! ### Edits of other variables -/

namespace Builtin.EditOutcome

variable {before after : Surroundings} {words : List Text}

theorem isSound (h : EditOutcome before words after) (hsound : before.IsSound)
    (htree : after.host.tree = before.host.tree)
    (hlocation : after.host.location = before.host.location) : after.IsSound := by
  cases h with
  | unchanged => exact hsound
  | ran name host _ _ => exact hsound.withHost htree hlocation
  | edited edit environment _ hedit => exact hsound.edit hedit

/-- Unless the words set `PWD`, they leave it alone or erase it. -/
theorem get?_pwd (h : EditOutcome before words after) (hwf : before.environment.WellFormed)
    (hset : ∀ value, words ≠ (Edit.set "PWD".toList value).words) :
    after.environment.get? "PWD".toList = before.environment.get? "PWD".toList ∨
      words = (Edit.erase "PWD".toList).words ∧ after.environment.get? "PWD".toList = none := by
  cases h with
  | unchanged => exact .inl rfl
  | ran name host _ _ => exact .inl rfl
  | edited edit environment hwords hedit =>
    have hget := hwf.get?_of_edit hedit "PWD".toList
    by_cases hname : "PWD".toList = edit.name
    · rw [if_pos hname] at hget
      cases edit with
      | set name value => exact absurd (by rw [hwords, hname, Edit.name]) (hset value)
      | erase name => exact .inr ⟨by rw [hwords, hname, Edit.name], hget⟩
    · rw [if_neg hname] at hget
      exact .inl hget

/-- Without another place to work in there is nothing new to note. -/
theorem location (h : EditOutcome before words after)
    (hstill : ∀ name, words.head? = some name → Builtin.ofName? name = none →
      after.host.location = before.host.location) : after.host.location = before.host.location := by
  cases h with
  | unchanged => rfl
  | ran name host hname hexternal => exact hstill name hname hexternal
  | edited edit environment _ _ => rfl

end Builtin.EditOutcome

namespace Execution

/-- The command is not one that sets `PWD`. -/
def SetsNoPwd (execution : Execution) : Prop :=
  ∀ value, execution.argv ≠ ["setenv".toList, "PWD".toList, value]

/-- The command is not one that erases `PWD`. -/
def ErasesNoPwd (execution : Execution) : Prop :=
  execution.argv ≠ ["unsetenv".toList, "PWD".toList]

/-- What keeps `PWD` from going stale: nothing else moves the session or sets `PWD`, and `cd` is told where it leads. -/
structure IsPlain [Children] (execution : Execution) : Prop where
  still : execution.IsStill
  told : execution.IsTold
  setsNoPwd : execution.SetsNoPwd

variable [Children] (execution : Execution)

theorem isSound_and_pwdIsCurrent (hplain : execution.IsPlain)
    (h : execution.before.surroundings.IsSound ∧ execution.before.surroundings.PwdIsCurrent) :
    execution.after.surroundings.IsSound ∧ execution.after.surroundings.PwdIsCurrent := by
  obtain ⟨hsound, hcurrent⟩ := h
  rcases execution.edited_or_noted hsound hplain.told with ⟨-, hedited⟩ | ⟨hsoundAfter, hnoted⟩
  · have hlocation := hedited.location hplain.still.location
    refine ⟨hedited.isSound hsound hplain.still.tree hlocation, ?_⟩
    rcases hedited.get?_pwd hsound.wellFormed hplain.setsNoPwd with hsame | ⟨-, hnone⟩
    · rwa [Surroundings.PwdIsCurrent, Surroundings.PwdIsNoted, hlocation, hsame]
    · exact .inl hnone
  · exact ⟨hsoundAfter, .inr hnoted⟩

theorem isSound_and_pwdIsNoted (hallowed : execution.IsPlain ∧ execution.ErasesNoPwd)
    (h : execution.before.surroundings.IsSound ∧ execution.before.surroundings.PwdIsNoted) :
    execution.after.surroundings.IsSound ∧ execution.after.surroundings.PwdIsNoted := by
  obtain ⟨hsound, hnoted⟩ := h
  obtain ⟨hplain, herase⟩ := hallowed
  rcases execution.edited_or_noted hsound hplain.told with ⟨-, hedited⟩ | hafter
  · have hlocation := hedited.location hplain.still.location
    refine ⟨hedited.isSound hsound hplain.still.tree hlocation, ?_⟩
    rcases hedited.get?_pwd hsound.wellFormed hplain.setsNoPwd with hsame | ⟨hwords, -⟩
    · rwa [Surroundings.PwdIsNoted, hlocation, hsame]
    · exact absurd hwords herase
  · exact hafter

end Execution

/-! ### Any number of lines -/

namespace Shell

section Lines

variable [Children]

theorem IsTrace.pwdIsCurrent {shell : Shell} {trace : List Execution} (h : shell.IsTrace trace)
    (hplain : ∀ execution ∈ trace, execution.IsPlain)
    (hstart : shell.surroundings.IsSound ∧ shell.surroundings.PwdIsCurrent) :
    (shell.behind trace).surroundings.IsSound ∧ (shell.behind trace).surroundings.PwdIsCurrent :=
  IsTrace.keeps (fun surroundings => surroundings.IsSound ∧ surroundings.PwdIsCurrent) _
    Execution.isSound_and_pwdIsCurrent h hplain hstart

theorem IsTrace.pwdIsNoted {shell : Shell} {trace : List Execution} (h : shell.IsTrace trace)
    (hallowed : ∀ execution ∈ trace, execution.IsPlain ∧ execution.ErasesNoPwd)
    (hstart : shell.surroundings.IsSound ∧ shell.surroundings.PwdIsNoted) :
    (shell.behind trace).surroundings.IsSound ∧ (shell.behind trace).surroundings.PwdIsNoted :=
  IsTrace.keeps (fun surroundings => surroundings.IsSound ∧ surroundings.PwdIsNoted) _
    Execution.isSound_and_pwdIsNoted h hallowed hstart

/-- From a `cd` that moved on, `PWD` is set to the working directory as long as it is not erased. -/
theorem IsTrace.pwdIsNoted_since {shell : Shell} {earlier since : List Execution} {cd : Execution}
    (h : shell.IsTrace (earlier ++ cd :: since))
    (hplain : ∀ execution ∈ earlier ++ cd :: since, execution.IsPlain)
    (hstart : shell.surroundings.IsSound ∧ shell.surroundings.PwdIsCurrent) (hmoved : cd.Moved)
    (herase : ∀ execution ∈ since, execution.ErasesNoPwd) :
    (cd.after.behind since).surroundings.PwdIsNoted := by
  rw [List.forall_mem_append, List.forall_mem_cons] at hplain
  obtain ⟨hearlier, hcd, hsince⟩ := hplain
  obtain ⟨htrace, hbefore, htraceSince⟩ := isTrace_append.1 h
  have hready := htrace.pwdIsCurrent hearlier hstart
  rw [← hbefore] at hready
  have hafter : cd.after.surroundings.IsSound ∧ cd.after.surroundings.PwdIsNoted :=
    ⟨(cd.isSound_and_pwdIsCurrent hcd hready).1, Execution.noted_of_moved hmoved hready.1 hcd.told⟩
  refine (htraceSince.pwdIsNoted ?_ hafter).2
  intro execution hmem
  exact ⟨hsince execution hmem, herase execution hmem⟩

/-- `PWD` does not go stale on its own. After every line it is unset or the working directory, and from a `cd` that moved up to an `unsetenv PWD` it is set. This is so on a tree that stays as it is, as long as no `cd` enters a directory of which the host does not tell the path. One that does fails, but it has moved, and `PWD` is what it was before. -/
theorem pwd_follows_directory (shell : Shell) (lines : List Text)
    (hwf : shell.session.environment.WellFormed)
    (hnames : ∀ name ∈ shell.host.tree.top.names, 0 ∉ name ∧ name.IsText)
    (hdirectory : shell.host.HasDirectory) (hcurrent : shell.surroundings.PwdIsCurrent)
    (hstill : ∀ execution ∈ shell.executionsOf lines, execution.IsStill)
    (hset : ∀ execution ∈ shell.executionsOf lines, execution.SetsNoPwd) :
    ((∀ execution ∈ shell.executionsOf lines, execution.IsTold) →
        (∀ count, (shell.afterLines (lines.take count)).surroundings.PwdIsCurrent) ∧
          ∀ earlier cd since later, shell.executionsOf lines = earlier ++ cd :: (since ++ later) →
            cd.Moved → (∀ execution ∈ since, execution.ErasesNoPwd) →
            (cd.after.behind since).surroundings.PwdIsNoted ∧
              (later = [] → (shell.afterLines lines).surroundings.PwdIsNoted)) ∧
      ∀ cd ∈ shell.executionsOf lines, ∀ arguments host error,
        cd.argv = Builtin.cd.name :: arguments →
        Builtin.EntersUntold cd.before arguments host error →
        cd.answer? = some (.error (.builtin Builtin.cd.name (.file error))) ∧
          cd.after.surroundings = { cd.before.surroundings with host } := by
  refine ⟨?_, fun cd _ arguments host error => Execution.surroundings_after_of_entersUntold⟩
  intro htold
  have hplain : ∀ execution ∈ shell.executionsOf lines, execution.IsPlain := fun execution hmem =>
    ⟨hstill execution hmem, htold execution hmem, hset execution hmem⟩
  have hstart : shell.surroundings.IsSound ∧ shell.surroundings.PwdIsCurrent :=
    ⟨⟨hwf, hnames, hdirectory.isPlaced⟩, hcurrent⟩
  constructor
  · intro count
    obtain ⟨htrace, hbehind⟩ := shell.isTrace_executionsOf (lines.take count)
    rw [hbehind]
    refine (htrace.pwdIsCurrent ?_ hstart).2
    intro execution hmem
    apply hplain execution
    rw [← List.take_append_drop count lines, executionsOf_append]
    exact List.mem_append_left _ hmem
  · intro earlier cd since later heq hmoved herase
    obtain ⟨htrace, hbehind⟩ := shell.isTrace_executionsOf lines
    rw [← List.cons_append, ← List.append_assoc] at heq
    rw [heq] at htrace hplain hbehind
    have hnoted : (cd.after.behind since).surroundings.PwdIsNoted := by
      apply (isTrace_append.1 htrace).1.pwdIsNoted_since _ hstart hmoved herase
      exact (List.forall_mem_append.1 hplain).1
    refine ⟨hnoted, ?_⟩
    intro hlater
    rw [hbehind, hlater, List.append_nil, behind_append]
    exact hnoted

end Lines

open Children.Performing

/-- A `cd` whose answer finds no room, in front of the end of `PWD`, and one that goes where another process works, in a directory that was removed. -/
theorem pwd_follows_directory_unprinted :
    let top : Forest :=
      .tree (Text.utf8 "d".toList) .directory .empty <|
        .tree (Text.utf8 "k".toList) (.link (.workplace 7)) .empty .empty
    let workplace : Location := { place := [], gone := [{}] }
    let host : Host := { tree := { top, workplaces := [(7, workplace)] } }
    let shell : Shell := { bare with host, sink := { room := some 0 } }
    let lines := ["cd d".toList, "cd -".toList, "unsetenv PWD".toList]
    (∃ first second third, shell.executionsOf lines = [first, second, third] ∧
      second.answer? = some (.error (.builtin "cd".toList (.file .outputClosed))) ∧
      second.after.surroundings.PwdIsNoted ∧
      third.argv = ["unsetenv".toList, "PWD".toList] ∧
      (shell.afterLines lines).surroundings.PwdIsCurrent) ∧
    ∃ cd, shell.executionsOf ["cd k".toList] = [cd] ∧
      cd.answer? = some (.error (.builtin "cd".toList (.file .missing))) ∧
      cd.after.surroundings = { shell.surroundings with host := { host with location := workplace } } := by
  intro top workplace host shell lines
  have hnames : ∀ name ∈ shell.host.tree.top.names, 0 ∉ name ∧ name.IsText := by decide
  constructor
  · have hexecuted : (shell.executionsOf lines).map (fun execution => (execution.argv, execution.answer?)) =
        [(["cd".toList, "d".toList], some (.ok 0)),
          (["cd".toList, "-".toList], some (.error (.builtin "cd".toList (.file .outputClosed)))),
          (["unsetenv".toList, "PWD".toList], some (.ok 0))] := by
      decide +kernel
    have htree : ∀ execution ∈ shell.executionsOf lines,
        execution.after.host.tree = execution.before.host.tree := by
      decide +kernel
    have hpaths : ∀ execution ∈ shell.executionsOf lines,
        execution.after.host.workingDirectory.toOption.isSome = true := by
      decide +kernel
    obtain ⟨first, rest, hfirst, hcd, hrest⟩ := List.map_eq_cons_iff.1 hexecuted
    obtain ⟨second, rest, rfl, hback, hrest⟩ := List.map_eq_cons_iff.1 hrest
    obtain ⟨third, rest, rfl, hunset, hrest⟩ := List.map_eq_cons_iff.1 hrest
    rw [List.map_eq_nil_iff.1 hrest] at hfirst
    rw [Prod.mk.injEq] at hcd hback hunset
    have hset : ∀ execution ∈ shell.executionsOf lines, execution.SetsNoPwd := by
      rw [hfirst]
      simp [Execution.SetsNoPwd, hcd, hback, hunset]
    have hbuiltin : ∀ execution ∈ shell.executionsOf lines, ∀ name,
        execution.argv.head? = some name → Builtin.ofName? name ≠ none := by
      rw [hfirst]
      simp only [List.forall_mem_cons, hcd.1, hback.1, hunset.1, List.head?_cons, Option.some.injEq]
      refine ⟨?_, ?_, ?_, by simp⟩ <;> (rintro name rfl; decide)
    have hpwd := (pwd_follows_directory shell lines Environment.wellFormed_empty hnames ⟨rfl, rfl⟩
      (.inl rfl)
      (fun execution hmem => ⟨htree execution hmem, fun name hname hnone =>
        absurd hnone (hbuiltin execution hmem name hname)⟩) hset).1
      fun execution hmem => Execution.isTold_of_isSome (hpaths execution hmem)
    have hmoved : second.Moved := ⟨by rw [hback.1]; rfl, .inr (.inr hback.2)⟩
    refine ⟨first, second, third, hfirst, hback.2, ?_, hunset.1, hpwd.1 3⟩
    exact (hpwd.2 [first] second [] [third] hfirst hmoved (by simp)).1
  · let cd : Execution := { before := shell.beginLine "cd k".toList, command := "cd k".toList }
    have hexecuted : shell.executionsOf ["cd k".toList] = [cd] := by rfl
    have hargv : cd.argv = ["cd".toList, "k".toList] := by decide
    have hset : cd.SetsNoPwd := by simp [Execution.SetsNoPwd, hargv]
    have hstill : cd.IsStill := by
      refine ⟨by decide +kernel, ?_⟩
      rw [hargv]
      rintro name ⟨⟩ hnone
      exact absurd hnone (by decide)
    have huntold : Builtin.EntersUntold cd.before ["k".toList] { host with location := workplace } .missing :=
      ⟨some "k".toList, .ofText "k".toList, "/".toList, rfl, by decide, by decide, by decide, by decide⟩
    have hlost := (pwd_follows_directory shell ["cd k".toList] Environment.wellFormed_empty hnames
      ⟨rfl, rfl⟩ (.inl rfl) (hexecuted ▸ List.forall_mem_singleton.2 hstill)
      (hexecuted ▸ List.forall_mem_singleton.2 hset)).2
    refine ⟨cd, hexecuted, ?_⟩
    exact hlost cd (hexecuted ▸ List.mem_singleton_self cd) _ _ _ hargv huntold

end Shell

end CommandShell
