import CommandShell.Proofs.Evaluation.Frame

/-!
# Numbers of lines

A session counts its lines and keeps the text of the last one, and reports carry the number of their line. Nothing that a command does depends on either. To say so, lines are relabelled: every number, in the counter and in the reports, goes through one function, and the kept text through another. Running a command and relabelling the outcome is the same as relabelling first and running the command then.

Functions that forget their argument make two runs comparable that differ in nothing but labels.
-/

namespace CommandShell

/-- The event with the number of a report changed. -/
def Event.renumber (number : Nat → Nat) : Event → Event
  | report told => report { told with line := number told.line }
  | event => event

def Sink.renumber (number : Nat → Nat) (sink : Sink) : Sink :=
  { sink with reversed := sink.reversed.map (.renumber number) }

/-- The shell with the numbers and the text of its lines changed. -/
def Shell.relabel (number : Nat → Nat) (text : Text → Text) (shell : Shell) : Shell :=
  { session :=
      { shell.session with
        counter := number shell.session.counter
        input := text shell.session.input }
    host := shell.host
    sink := shell.sink.renumber number }

/-! ### What relabelling leaves alone -/

namespace Shell

variable (number : Nat → Nat) (text : Text → Text) (shell : Shell)

theorem environment_relabel :
    (shell.relabel number text).session.environment = shell.session.environment := rfl

theorem status_relabel : (shell.relabel number text).session.status = shell.session.status := rfl

theorem exitRequest_relabel :
    (shell.relabel number text).session.exitRequest = shell.session.exitRequest := rfl

theorem scope_relabel : (shell.relabel number text).session.scope = shell.session.scope := rfl

end Shell

/-! ### Output -/

namespace Sink

variable (number : Nat → Nat) (sink : Sink)

@[simp]
theorem events_renumber : (sink.renumber number).events = sink.events.map (.renumber number) := by
  simp [events, renumber]

theorem renumber_addAll (events : List Event) :
    (sink.addAll events).renumber number = (sink.renumber number).addAll (events.map (.renumber number)) := by
  simp only [addAll]
  induction events generalizing sink with
  | nil => rfl
  | cons event rest ih => exact ih (sink.add event)

theorem renumber_addAll_child (writes : List ChildWrite) :
    (sink.addAll (writes.map .child)).renumber number =
      (sink.renumber number).addAll (writes.map .child) := by
  rw [renumber_addAll, List.map_map]
  rfl

theorem write_renumber (bytes : Bytes) :
    (sink.renumber number).write bytes = (sink.write bytes).map id (renumber number) := by
  obtain ⟨room, reversed⟩ := sink
  cases room with
  | none => rfl
  | some room =>
    simp only [write, renumber]
    split <;> rfl

theorem writeAll_renumber (texts : List Text) :
    (sink.renumber number).writeAll texts = (sink.writeAll texts).map id (renumber number) := by
  induction texts generalizing sink with
  | nil => rfl
  | cons text rest ih =>
    rw [writeAll, write_renumber, writeAll]
    rcases sink.write text.utf8 with ⟨_ | _, next⟩
    · rfl
    · exact ih next

end Sink

/-! ### Commands -/

namespace Builtin

variable (number : Nat → Nat) (text : Text → Text) (shell : Shell)

theorem writeAnswer_relabel (texts : List Text) :
    writeAnswer (shell.relabel number text) texts =
      (writeAnswer shell texts).map id (.relabel number text) := by
  have hwrite : (shell.relabel number text).write texts =
      (shell.write texts).map id (.relabel number text) := by
    simp only [Shell.write, Shell.relabel, Sink.writeAll_renumber]
    rfl
  rw [writeAnswer, hwrite, writeAnswer]
  rcases shell.write texts with ⟨_ | _, done⟩ <;> rfl

theorem move_relabel (target : HostPath) (shown left : Text) (isPrinted : Bool) :
    move (shell.relabel number text) target shown left isPrinted =
      (move shell target shown left isPrinted).map id (.relabel number text) := by
  simp only [move, Shell.relabel]
  cases shell.host.enter? target with
  | none => rfl
  | some host =>
    dsimp only
    cases host.workingDirectory with
    | error error => rfl
    | ok entered =>
      dsimp only
      cases noteMove shell.session.environment left entered.shown with
      | error error => rfl
      | ok environment =>
        cases isPrinted with
        | false => rfl
        | true => exact writeAnswer_relabel number text (({ shell with host }).withEnvironment environment) _

theorem runCd_relabel (arguments : List Text) :
    runCd (shell.relabel number text) arguments =
      (runCd shell arguments).map id (.relabel number text) := by
  have hdirectory (argument : Option Text) :
      directoryFor (shell.relabel number text) argument = directoryFor shell argument := rfl
  have hleft : leftDirectory (shell.relabel number text) = leftDirectory shell := rfl
  rw [runCd.eq_def, runCd.eq_def]
  split
  · rfl
  · dsimp only
    rw [hdirectory, hleft]
    cases directoryFor shell arguments.head? with
    | error error => rfl
    | ok target =>
      cases leftDirectory shell with
      | error error => rfl
      | ok left => exact move_relabel number text shell _ _ _ _

theorem runEnv_relabel (arguments : List Text) :
    runEnv (shell.relabel number text) arguments =
      (runEnv shell arguments).map id (.relabel number text) := by
  rw [runEnv, runEnv]
  split
  · exact writeAnswer_relabel number text shell _
  · rfl

theorem runExit_relabel (arguments : List Text) :
    runExit (shell.relabel number text) arguments =
      (runExit shell arguments).map id (.relabel number text) := by
  rw [runExit, runExit]
  split
  · rfl
  · split <;> rfl

theorem runTopics_relabel (topics : List Text) :
    runTopics (shell.relabel number text) topics =
      (runTopics shell topics).map id (.relabel number text) := by
  induction topics generalizing shell with
  | nil => rfl
  | cons name rest ih =>
    rw [runTopics, runTopics]
    cases ofName? name with
    | none => rfl
    | some builtin =>
      dsimp only
      rw [writeAnswer_relabel]
      rcases writeAnswer shell [builtin.topic] with ⟨_ | _, next⟩
      · rfl
      · exact ih next

theorem runHelp_relabel (arguments : List Text) :
    runHelp (shell.relabel number text) arguments =
      (runHelp shell arguments).map id (.relabel number text) := by
  rw [runHelp, runHelp]
  split
  · exact writeAnswer_relabel number text shell _
  · exact runTopics_relabel number text shell arguments

theorem runSetenv_relabel (arguments : List Text) :
    runSetenv (shell.relabel number text) arguments =
      (runSetenv shell arguments).map id (.relabel number text) := by
  rw [runSetenv.eq_def, runSetenv.eq_def]
  split
  · next name value =>
    rw [Shell.environment_relabel]
    cases shell.session.environment.set name value <;> rfl
  · rfl

theorem runUnsetenv_relabel (arguments : List Text) :
    runUnsetenv (shell.relabel number text) arguments =
      (runUnsetenv shell arguments).map id (.relabel number text) := by
  rw [runUnsetenv.eq_def, runUnsetenv.eq_def]
  split
  · next name =>
    rw [Shell.environment_relabel]
    cases shell.session.environment.erase name <;> rfl
  · rfl

theorem run_relabel (builtin : Builtin) (arguments : List Text) :
    builtin.run (shell.relabel number text) arguments =
      (builtin.run shell arguments).map id (.relabel number text) := by
  cases builtin with
  | cd => exact runCd_relabel number text shell arguments
  | env => exact runEnv_relabel number text shell arguments
  | exit => exact runExit_relabel number text shell arguments
  | help => exact runHelp_relabel number text shell arguments
  | setenv => exact runSetenv_relabel number text shell arguments
  | unsetenv => exact runUnsetenv_relabel number text shell arguments

end Builtin

namespace Shell

variable (number : Nat → Nat) (text : Text → Text) (shell : Shell)

theorem conclude_relabel (result : Except ShellError Status) :
    (shell.relabel number text).conclude result = (shell.conclude result).relabel number text := by
  cases result <;> rfl

section Commands

variable [Children]

theorem dispatch_relabel (name : Text) (arguments : List Text) :
    (shell.relabel number text).dispatch name arguments =
      (shell.dispatch name arguments).map id (relabel number text) := by
  rw [dispatch, dispatch]
  cases Builtin.ofName? name with
  | some builtin =>
    dsimp only
    rw [Builtin.run_relabel]
    rfl
  | none =>
    have hsink := Sink.renumber_addAll_child number shell.sink
      (shell.host.run (name :: arguments) shell.session.environment).writes
    simp only [runExternal, relabel, Prod.map_apply, id_eq, hsink]

theorem runCommand_relabel (command : Text) :
    (shell.relabel number text).runCommand command =
      (shell.runCommand command).relabel number text := by
  rw [runCommand, runCommand, scope_relabel]
  cases words (shell.session.scope.expand command) with
  | nil => rfl
  | cons name arguments =>
    have hdispatch := dispatch_relabel number text
      { shell with session := { shell.session with argv := name :: arguments } } name arguments
    dsimp only [relabel] at hdispatch ⊢
    rw [hdispatch]
    exact conclude_relabel number text _ _

theorem resume_relabel (rest : List (Operator × Text)) :
    resume rest (shell.relabel number text) = (resume rest shell).map id (relabel number text) := by
  induction rest generalizing shell with
  | nil => rfl
  | cons step rest ih =>
    obtain ⟨operator, command⟩ := step
    rw [resume, resume, status_relabel]
    cases operator.allows shell.session.status with
    | false => rw [runChain_false, runChain_false, ih]
    | true =>
      rw [runChain_true, runChain_true, runCommand_relabel, exitRequest_relabel]
      cases (shell.runCommand command).session.exitRequest with
      | none => exact ih _
      | some code => rfl

theorem runChain_relabel (command : Text) (rest : List (Operator × Text)) :
    (shell.relabel number text).runChain true command rest =
      (shell.runChain true command rest).map id (relabel number text) :=
  resume_relabel number text shell ((.always, command) :: rest)

end Commands

/-! ### Shells that differ in labels only -/

/-- The shell without the numbers and the text of its lines. -/
def unlabelled : Shell → Shell :=
  relabel (fun _ => 0) (fun _ => [])

/-- The shells differ in nothing but the numbers and the text of their lines. -/
def Alike (left right : Shell) : Prop :=
  left.unlabelled = right.unlabelled

namespace Alike

theorem trans {first second third : Shell} (hfirst : first.Alike second) (hsecond : second.Alike third) :
    first.Alike third :=
  Eq.trans hfirst hsecond

/-- Beginning a line changes labels only. -/
theorem beginLine (shell : Shell) (raw : Text) : (shell.beginLine raw).Alike shell := rfl

theorem symm {left right : Shell} (h : left.Alike right) : right.Alike left :=
  Eq.symm h

theorem runChain [Children] {left right : Shell} (h : left.Alike right) (command : Text)
    (rest : List (Operator × Text)) :
    (left.runChain true command rest).1 = (right.runChain true command rest).1 ∧
      (left.runChain true command rest).2.Alike (right.runChain true command rest).2 := by
  have hmap : (left.runChain true command rest).map id unlabelled =
      (right.runChain true command rest).map id unlabelled := by
    rw [unlabelled, ← runChain_relabel, ← runChain_relabel, ← unlabelled, h]
  exact Prod.mk.inj hmap

theorem session {left right : Shell} (h : left.Alike right) :
    left.session =
      { right.session with counter := left.session.counter, input := left.session.input } := by
  have hsession : left.unlabelled.session = right.unlabelled.session := by rw [h]
  simp only [unlabelled, relabel, Session.mk.injEq] at hsession
  obtain ⟨hargs, henvironment, hprocessId, hpalette, -, hargv, hstatus, -, hexitRequest⟩ := hsession
  dsimp only
  rw [← hargs, ← henvironment, ← hprocessId, ← hpalette, ← hargv, ← hstatus, ← hexitRequest]

theorem host {left right : Shell} (h : left.Alike right) : left.host = right.host := by
  have hhost : left.unlabelled.host = right.unlabelled.host := by rw [h]
  exact hhost

theorem room {left right : Shell} (h : left.Alike right) : left.sink.room = right.sink.room := by
  have hroom : left.unlabelled.sink.room = right.unlabelled.sink.room := by rw [h]
  exact hroom

theorem events {left right : Shell} (h : left.Alike right) :
    left.sink.events.map (Event.renumber fun _ => 0) =
      right.sink.events.map (Event.renumber fun _ => 0) := by
  have hevents : left.unlabelled.sink.events = right.unlabelled.sink.events := by rw [h]
  rwa [unlabelled, relabel, relabel, Sink.events_renumber, Sink.events_renumber] at hevents

end Alike

end Shell

end CommandShell
