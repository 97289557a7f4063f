import Mathlib.Logic.Relation
import CommandShell.Evaluation
import CommandShell.Proofs.Environment.Edit

/-!
# What a command can do

All that a command does to a shell, once its words are known, is put together from a few small changes, and an error is told only when the changes are done. This is said once here, by going through the builtins and through what a child may leave behind. What commands keep is then read off the small changes.
-/

namespace CommandShell

theorem eq_ok_of_mapError {ε δ α : Type} {result : Except ε α} {wrap : ε → δ} {value : α}
    (h : result.mapError wrap = .ok value) : result = .ok value := by
  cases result with
  | ok other =>
    have hother : (Except.ok other : Except δ α) = .ok value := h
    rw [Except.ok.inj hother]
  | error error =>
    have herror : (Except.error (wrap error) : Except δ α) = .ok value := h
    simp at herror

theorem eq_error_of_mapError {ε δ α : Type} {result : Except ε α} {wrap : ε → δ} {wrapped : δ}
    (h : result.mapError wrap = .error wrapped) :
    ∃ error, result = .error error ∧ wrap error = wrapped := by
  cases result with
  | ok value =>
    have hvalue : (Except.ok value : Except δ α) = .error wrapped := h
    simp at hvalue
  | error error => exact ⟨error, rfl, Except.error.inj h⟩

/-- The statuses that a host passes on as they are. -/
def InRange (status : Status) : Prop :=
  0 ≤ status ∧ status ≤ 255

instance (status : Status) : Decidable (InRange status) :=
  inferInstanceAs (Decidable (0 ≤ status ∧ status ≤ 255))

theorem inRange_natCast {number : Nat} (h : number ≤ 255) : InRange number :=
  ⟨Int.natCast_nonneg number, Int.ofNat_le.2 h⟩

namespace Shell

/-- One small change. A wish to exit carries the last status or one that is in range, and so does a status that is recorded, unless it is the one that the wish carries. -/
inductive Change (before : Shell) : Shell → Prop
  | edit (edit : Edit) :
    Change before (before.withEnvironment (before.session.environment.edited edit))
  | ask (code : Status) (hcode : code = before.session.status ∨ InRange code) :
    Change before (before.requestExit code)
  | record (status : Status)
    (hstatus : InRange status ∨ before.session.exitRequest = some status) :
    Change before (before.withStatus status)
  | host (host : Host) : Change before { before with host }
  | write (bytes : Bytes) (room : Option Nat) :
    Change before { before with sink := { before.sink.add (.output bytes) with room } }
  | child (written : ChildWrite) :
    Change before { before with sink := before.sink.add (.child written) }

abbrev Changes : Shell → Shell → Prop :=
  Relation.ReflTransGen Change

theorem eq_of_changes {α : Type} {part : Shell → α}
    (hpart : ∀ {before later : Shell}, before.Change later → part later = part before)
    {before later : Shell} (h : before.Changes later) : part later = part before := by
  induction h with
  | refl => rfl
  | tail _ hchange ih => rw [hpart hchange, ih]

/-- The answer was reached by changes, and its status may be recorded. -/
structure Answers {ε : Type} (before : Shell) (answer : Except ε Status × Shell) : Prop where
  changes : before.Changes answer.2
  recordable : ∀ status, answer.1 = .ok status →
    InRange status ∨ answer.2.session.exitRequest = some status

namespace Answers

variable {ε : Type} {before middle later : Shell}

theorem error (h : before.Changes later) (error : ε) : before.Answers (.error error, later) := by
  refine ⟨h, ?_⟩
  intro status hstatus
  simp at hstatus

theorem ok (h : before.Changes later) {status : Status} (hstatus : InRange status) :
    before.Answers ((.ok status : Except ε Status), later) := by
  refine ⟨h, ?_⟩
  intro recorded hrecorded
  rw [← Except.ok.inj hrecorded]
  exact .inl hstatus

theorem trans (h : before.Changes middle) {answer : Except ε Status × Shell}
    (hanswer : middle.Answers answer) : before.Answers answer :=
  ⟨Relation.ReflTransGen.trans h hanswer.changes, hanswer.recordable⟩

theorem mapError {answer : Except ε Status × Shell} (h : before.Answers answer) {δ : Type}
    (wrap : ε → δ) : before.Answers (answer.1.mapError wrap, answer.2) := by
  refine ⟨h.changes, ?_⟩
  intro status hstatus
  exact h.recordable status (eq_ok_of_mapError hstatus)

end Answers

/-! ### Output -/

theorem change_write (shell : Shell) (bytes : Bytes) :
    shell.Change { shell with sink := (shell.sink.write bytes).2 } := by
  obtain ⟨session, host, room, reversed⟩ := shell
  cases room with
  | none => exact .write bytes none
  | some room =>
    rw [Sink.write]
    dsimp only
    split
    · exact .write bytes (some (room - bytes.length))
    · exact .write (bytes.take room) (some 0)

theorem changes_writeAll (shell : Shell) (texts : List Text) :
    shell.Changes { shell with sink := (shell.sink.writeAll texts).2 } := by
  induction texts generalizing shell with
  | nil => exact .refl
  | cons text rest ih =>
    have hfirst := shell.change_write text.utf8
    rw [Sink.writeAll]
    rcases hwrite : shell.sink.write text.utf8 with ⟨_ | _, next⟩
    · rw [hwrite] at hfirst
      exact .single hfirst
    · rw [hwrite] at hfirst
      exact .head hfirst (ih { shell with sink := next })

theorem changes_addAll (shell : Shell) (writes : List ChildWrite) :
    shell.Changes { shell with sink := shell.sink.addAll (writes.map .child) } := by
  induction writes generalizing shell with
  | nil => exact .refl
  | cons written rest ih =>
    have hfirst : shell.Change { shell with sink := shell.sink.add (.child written) } := .child written
    exact .head hfirst (ih _)

end Shell

/-! ### Builtins -/

namespace Builtin

variable (shell : Shell)

theorem answers_writeAnswer (texts : List Text) : shell.Answers (writeAnswer shell texts) := by
  have hchanges := shell.changes_writeAll texts
  rw [writeAnswer, Shell.write]
  rcases hwrite : shell.sink.writeAll texts with ⟨_ | _, sink⟩
  · rw [hwrite] at hchanges
    exact .error hchanges _
  · rw [hwrite] at hchanges
    exact .ok hchanges (by decide)

theorem edited_of_set {environment next : Environment} {name value : Text}
    (h : environment.set name value = .ok next) :
    environment.edited (.set name value) = next := by
  rw [Environment.edited, Environment.edit, h]

theorem edited_of_erase {environment next : Environment} {name : Text}
    (h : environment.erase name = .ok next) : environment.edited (.erase name) = next := by
  rw [Environment.edited, Environment.edit, h]

theorem edits_of_noteMove {environment noted : Environment} {left entered : Text}
    (h : noteMove environment left entered = .ok noted) :
    ∃ middle, environment.edit (.set "OLDPWD".toList left) = .ok middle ∧
      middle.edit (.set "PWD".toList entered) = .ok noted := by
  rw [noteMove] at h
  cases hleft : environment.set "OLDPWD".toList left with
  | error error =>
    rw [hleft] at h
    exact absurd h (by simp [bind, Except.bind])
  | ok middle =>
    rw [hleft] at h
    exact ⟨middle, hleft, h⟩

theorem noteMove_eq_ok {environment noted : Environment} {left entered : Text}
    (h : noteMove environment left entered = .ok noted) :
    (environment.edited (.set "OLDPWD".toList left)).edited (.set "PWD".toList entered) = noted := by
  obtain ⟨middle, hleft, hentered⟩ := edits_of_noteMove h
  rw [edited_of_set hleft]
  exact edited_of_set hentered

theorem changes_noteMove {left entered : Text} {environment : Environment}
    (h : noteMove shell.session.environment left entered = .ok environment) :
    shell.Changes (shell.withEnvironment environment) := by
  have hleft : shell.Change
      (shell.withEnvironment (shell.session.environment.edited (.set "OLDPWD".toList left))) :=
    .edit _
  rw [← noteMove_eq_ok h]
  exact .tail (.single hleft) (.edit (.set "PWD".toList entered))

theorem answers_move (target : HostPath) (shown left : Text) (isPrinted : Bool) :
    shell.Answers (move shell target shown left isPrinted) := by
  rw [move]
  cases shell.host.enter? target with
  | none => exact .error .refl _
  | some host =>
    have hmoved : shell.Changes { shell with host } := .single (.host host)
    dsimp only
    cases host.workingDirectory with
    | error error => exact .error hmoved _
    | ok entered =>
      dsimp only
      cases hnote : noteMove shell.session.environment left entered.shown with
      | error error => exact .error hmoved _
      | ok environment =>
        have hnoted := hmoved.trans (changes_noteMove { shell with host } hnote)
        cases isPrinted with
        | false => exact .ok hnoted (by decide)
        | true => exact .trans hnoted (answers_writeAnswer _ _)

theorem answers_runCd (arguments : List Text) : shell.Answers (runCd shell arguments) := by
  rw [runCd.eq_def]
  split
  · exact .error .refl _
  · dsimp only
    cases directoryFor shell arguments.head? with
    | error error => exact .error .refl _
    | ok target =>
      cases leftDirectory shell with
      | error error => exact .error .refl _
      | ok left => exact answers_move shell _ _ _ _

theorem answers_runEnv (arguments : List Text) : shell.Answers (runEnv shell arguments) := by
  rw [runEnv]
  split
  · exact answers_writeAnswer shell _
  · exact .error .refl _

theorem inRange_exitStatus? {word : Text} {status : Status} (h : exitStatus? word = some status) :
    InRange status := by
  rw [exitStatus?] at h
  split at h
  · simp at h
  · obtain ⟨number, -, rfl⟩ := Option.map_eq_some_iff.1 h
    exact inRange_natCast (by omega)

theorem answers_requestExit {code : Status} (hcode : code = shell.session.status ∨ InRange code) :
    shell.Answers ((.ok code : Except BuiltinError Status), shell.requestExit code) := by
  refine ⟨.single (.ask code hcode), ?_⟩
  intro status hstatus
  exact .inr (congrArg some (Except.ok.inj hstatus))

theorem answers_runExit (arguments : List Text) : shell.Answers (runExit shell arguments) := by
  rw [runExit]
  split
  · exact answers_requestExit shell (.inl rfl)
  · split
    · next hstatus => exact answers_requestExit shell (.inr (inRange_exitStatus? hstatus))
    · exact .error .refl _

theorem answers_runTopics (topics : List Text) : shell.Answers (runTopics shell topics) := by
  induction topics generalizing shell with
  | nil => exact .ok .refl (by decide)
  | cons name rest ih =>
    rw [runTopics]
    cases ofName? name with
    | none => exact .error .refl _
    | some builtin =>
      have hwritten := (answers_writeAnswer shell [builtin.topic]).changes
      dsimp only
      rcases hwrite : writeAnswer shell [builtin.topic] with ⟨_ | _, next⟩
      · rw [hwrite] at hwritten
        exact .error hwritten _
      · rw [hwrite] at hwritten
        exact .trans hwritten (ih next)

theorem answers_runHelp (arguments : List Text) : shell.Answers (runHelp shell arguments) := by
  rw [runHelp]
  split
  · exact answers_writeAnswer shell _
  · exact answers_runTopics shell arguments

theorem answers_runSetenv (arguments : List Text) : shell.Answers (runSetenv shell arguments) := by
  rw [runSetenv.eq_def]
  split
  · next name value =>
    cases hset : shell.session.environment.set name value with
    | error error => exact .error .refl _
    | ok environment =>
      rw [← edited_of_set hset]
      exact .ok (.single (.edit _)) (by decide)
  · exact .error .refl _

theorem answers_runUnsetenv (arguments : List Text) :
    shell.Answers (runUnsetenv shell arguments) := by
  rw [runUnsetenv.eq_def]
  split
  · next name =>
    cases herase : shell.session.environment.erase name with
    | error error => exact .error .refl _
    | ok environment =>
      rw [← edited_of_erase herase]
      exact .ok (.single (.edit _)) (by decide)
  · exact .error .refl _

theorem answers_run (builtin : Builtin) (arguments : List Text) :
    shell.Answers (builtin.run shell arguments) := by
  cases builtin with
  | cd => exact answers_runCd shell arguments
  | env => exact answers_runEnv shell arguments
  | exit => exact answers_runExit shell arguments
  | help => exact answers_runHelp shell arguments
  | setenv => exact answers_runSetenv shell arguments
  | unsetenv => exact answers_runUnsetenv shell arguments

end Builtin

/-! ### Children -/

theorem Ending.inRange_status (ending : Ending) : InRange ending.status := by
  cases ending with
  | exited code => exact inRange_natCast (Nat.le_of_lt_succ code.toNat_lt)
  | killed signal =>
    have hstatus : 128 + signal.val ≤ 255 := by omega
    exact inRange_natCast hstatus

theorem Host.inRange_await {host : Host} {name : Text} {conduct : Conduct} {status : Status}
    (h : (host.await name conduct).result = .ok status) : InRange status := by
  rw [Host.await.eq_def] at h
  cases hwaited : conduct.waited with
  | error error =>
    rw [hwaited] at h
    simp at h
  | ok ending =>
    rw [hwaited] at h
    rw [← Except.ok.inj h]
    exact ending.inRange_status

theorem Host.inRange_run [Children] {host : Host} {argv : List Text} {environment : Environment}
    {status : Status} (h : (host.run argv environment).result = .ok status) : InRange status := by
  rw [Host.run.eq_def] at h
  cases argv with
  | nil =>
    rw [← Except.ok.inj h]
    decide
  | cons name arguments =>
    dsimp only at h
    cases hlaunch : host.launch name arguments environment with
    | error error =>
      rw [hlaunch] at h
      simp at h
    | ok launch =>
      rw [hlaunch] at h
      exact inRange_await h

/-! ### Commands -/

theorem ShellError.status_mem (error : ShellError) :
    error.status ∈ ([1, 2, 126, 127] : List Status) := by
  cases error with
  | builtin command error => cases error <;> simp [status, BuiltinError.status]
  | process error => cases error <;> simp [status, ProcessError.status]
  | terminal error => simp [status]
  | file error => simp [status]
  | noHome => simp [status]
  | misplaced error => simp [status]
  | startup error => simp [status]
  | invocation detail => simp [status]
  | scriptOpen path => simp [status]

theorem ShellError.inRange_status (error : ShellError) : InRange error.status := by
  have hall : ∀ status ∈ ([1, 2, 126, 127] : List Status), InRange status := by decide
  exact hall error.status error.status_mem

namespace Shell

def withArgv (shell : Shell) (argv : List Text) : Shell :=
  { shell with session := { shell.session with argv } }

section Perform

variable [Children]

/-- Performs the words of a command, if it has any, and records the outcome. -/
def perform (shell : Shell) (argv : List Text) : Shell :=
  let ready := shell.withArgv argv
  match argv with
  | [] => ready
  | name :: arguments => (ready.dispatch name arguments).2.conclude (ready.dispatch name arguments).1

theorem runCommand_eq_perform (shell : Shell) (command : Text) :
    shell.runCommand command = shell.perform (words (shell.session.scope.expand command)) := by
  rw [runCommand, perform.eq_def]
  cases words (shell.session.scope.expand command) <;> rfl

theorem dispatch_name (shell : Shell) (builtin : Builtin) (arguments : List Text) :
    shell.dispatch builtin.name arguments =
      ((builtin.run shell arguments).1.mapError (.builtin builtin.name),
        (builtin.run shell arguments).2) := by
  rw [dispatch, Builtin.ofName?_name]

theorem answers_dispatch (shell : Shell) (name : Text) (arguments : List Text) :
    shell.Answers (shell.dispatch name arguments) := by
  rw [dispatch]
  cases Builtin.ofName? name with
  | some builtin => exact (Builtin.answers_run shell builtin arguments).mapError _
  | none =>
    have hexternal : shell.Answers (shell.runExternal (name :: arguments)) := by
      have hhost : shell.Change { shell with host := _ } :=
        .host (shell.host.run (name :: arguments) shell.session.environment).host
      refine ⟨.head hhost (changes_addAll _ _), ?_⟩
      intro status hstatus
      exact .inl (Host.inRange_run hstatus)
    exact hexternal.mapError _

end Perform

/-- What a shell may have become: small changes lead to it, except that behind them an error may have been told, whose status is the last one. -/
inductive Settles (before : Shell) : Shell → Prop
  | quiet {later : Shell} (h : before.Changes later) : Settles before later
  | told {later : Shell} (h : before.Changes later) (error : ShellError)
    (hstatus : later.session.status = error.status) : Settles before (later.report error)

theorem Answers.settles_conclude {before : Shell} {answer : Except ShellError Status × Shell}
    (h : before.Answers answer) : before.Settles (answer.2.conclude answer.1) := by
  obtain ⟨result, later⟩ := answer
  cases result with
  | ok status =>
    have hrecord : later.Change (later.withStatus status) := .record status (h.recordable status rfl)
    exact .quiet (h.changes.tail hrecord)
  | error error =>
    have hrecord : later.Change (later.withStatus error.status) :=
      .record error.status (.inl error.inRange_status)
    exact .told (h.changes.tail hrecord) error rfl

theorem settles_conclude (shell : Shell) (error : ShellError) :
    shell.Settles (shell.conclude (.error error)) :=
  Answers.settles_conclude (.error .refl error)

theorem settles_perform [Children] (shell : Shell) (argv : List Text) :
    (shell.withArgv argv).Settles (shell.perform argv) := by
  cases argv with
  | nil => exact .quiet .refl
  | cons name arguments => exact Answers.settles_conclude (answers_dispatch _ name arguments)

end Shell

end CommandShell
