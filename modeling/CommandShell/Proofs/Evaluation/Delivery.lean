import CommandShell.Proofs.Evaluation.Change

/-!
# What commands write

How much output still fits makes no difference to a builtin until it writes, and once a write has failed it does nothing more. So all that a builtin does can be planned without a look at the sink: what it makes of session and host, the texts that it writes at the end, and how it answers if all of them are written. A child does not care for the room of the sink at all.
-/

namespace CommandShell

/-! ### Sinks with little room -/

namespace Sink

/-- All that builtins have written. -/
def output (sink : Sink) : Bytes :=
  sink.events.flatMap Event.outputBytes

def withRoom (sink : Sink) (room : Option Nat) : Sink :=
  { sink with room }

/-- The sink after the pieces have been written. -/
def print (sink : Sink) (pieces : List Bytes) : Sink :=
  sink.addAll (pieces.map .output)

theorem output_add (sink : Sink) (event : Event) :
    (sink.add event).output = sink.output ++ event.outputBytes := by
  rw [output, events_add, List.flatMap_append, output, List.flatMap_singleton]

theorem events_print (sink : Sink) (pieces : List Bytes) :
    (sink.print pieces).events = sink.events ++ pieces.map .output :=
  events_addAll sink _

theorem output_print (sink : Sink) (pieces : List Bytes) :
    (sink.print pieces).output = sink.output ++ pieces.flatten := by
  rw [output, events_print, List.flatMap_append, List.flatMap_map, List.flatten_eq_flatMap]
  rfl

theorem output_addAll_child (sink : Sink) (writes : List ChildWrite) :
    (sink.addAll (writes.map .child)).output = sink.output := by
  have hsilent : (writes.map Event.child).flatMap Event.outputBytes = [] := by
    rw [List.flatMap_map, List.flatMap_eq_nil_iff]
    intro written _
    rfl
  rw [output, events_addAll, List.flatMap_append, hsilent, List.append_nil, output]

theorem addAll_withRoom (sink : Sink) (room : Option Nat) (events : List Event) :
    (sink.withRoom room).addAll events = (sink.addAll events).withRoom room := by
  rw [addAll, addAll]
  induction events generalizing sink with
  | nil => rfl
  | cons event rest ih => exact ih (sink.add event)

/-- The bytes of the texts. -/
def bytesOf (texts : List Text) : Bytes :=
  (texts.map Text.utf8).flatten

theorem writeAll_unlimited (sink : Sink) (texts : List Text) :
    (sink.withRoom none).writeAll texts =
      (.ok (), (sink.print (texts.map Text.utf8)).withRoom none) := by
  induction texts generalizing sink with
  | nil => rfl
  | cons text rest ih => exact ih (sink.add (.output text.utf8))

theorem write_of_le (sink : Sink) {bytes : Bytes} {room : Nat} (h : bytes.length ≤ room) :
    (sink.withRoom (some room)).write bytes =
      (.ok (), (sink.print [bytes]).withRoom (some (room - bytes.length))) := by
  rw [write]
  exact if_pos h

theorem write_of_lt (sink : Sink) {bytes : Bytes} {room : Nat} (h : room < bytes.length) :
    (sink.withRoom (some room)).write bytes =
      (.error .outputClosed, (sink.print [bytes.take room]).withRoom (some 0)) := by
  rw [write]
  exact if_neg (Nat.not_le.2 h)

theorem writeAll_of_le (sink : Sink) {texts : List Text} {room : Nat}
    (h : (bytesOf texts).length ≤ room) :
    (sink.withRoom (some room)).writeAll texts =
      (.ok (), (sink.print (texts.map Text.utf8)).withRoom
        (some (room - (bytesOf texts).length))) := by
  induction texts generalizing sink room with
  | nil => rfl
  | cons text rest ih =>
    rw [bytesOf, List.map_cons, List.flatten_cons, List.length_append] at h
    have hrest : (bytesOf rest).length ≤ room - text.utf8.length := Nat.le_sub_of_add_le' h
    rw [writeAll, write_of_le sink (Nat.le_of_add_right_le h)]
    dsimp only
    rw [ih _ hrest, bytesOf, bytesOf, List.map_cons, List.flatten_cons, List.length_append,
      Nat.sub_sub]
    rfl

/-- If there is not room for all texts, as many bytes of them are written as there is room for. -/
theorem writeAll_of_lt (sink : Sink) {texts : List Text} {room : Nat}
    (h : room < (bytesOf texts).length) :
    ∃ pieces : List Bytes, pieces.flatten = (bytesOf texts).take room ∧
      (sink.withRoom (some room)).writeAll texts =
        (.error .outputClosed, (sink.print pieces).withRoom (some 0)) := by
  induction texts generalizing sink room with
  | nil => exact absurd h (Nat.not_lt_zero _)
  | cons text rest ih =>
    rw [bytesOf, List.map_cons, List.flatten_cons, List.take_append, writeAll]
    by_cases hfirst : text.utf8.length ≤ room
    · rw [bytesOf, List.map_cons, List.flatten_cons, List.length_append] at h
      have hrest : room - text.utf8.length < (bytesOf rest).length := by
        rw [bytesOf]
        omega
      obtain ⟨pieces, hpieces, hwritten⟩ := ih (sink.print [text.utf8]) hrest
      refine ⟨text.utf8 :: pieces, ?_, ?_⟩
      · rw [List.flatten_cons, hpieces, List.take_of_length_le hfirst, bytesOf]
      · rw [write_of_le sink hfirst]
        dsimp only
        rw [hwritten]
        rfl
    · have hlt : room < text.utf8.length := Nat.lt_of_not_le hfirst
      refine ⟨[text.utf8.take room], ?_, ?_⟩
      · rw [Nat.sub_eq_zero_of_le (Nat.le_of_lt hlt)]
        simp
      · rw [write_of_lt sink hlt]

end Sink

/-! ### Planned builtins -/

theorem Host.ne_outputClosed_of_workingDirectory {host : Host} {error : FileError}
    (h : host.workingDirectory = .error error) : error ≠ .outputClosed := by
  rw [workingDirectory] at h
  split at h
  · rw [← Except.error.inj h]
    decide
  · split at h
    · simp at h
    · rw [← Except.error.inj h]
      decide

namespace Builtin

/-- Writes the texts to the sink and gives the answer, unless a write fails. -/
def deliver (session : Session) (host : Host) (texts : List Text)
    (answer : Except BuiltinError Status) (sink : Sink) : Except BuiltinError Status × Shell :=
  match sink.writeAll texts with
  | (.ok (), done) => (answer, { session, host, sink := done })
  | (.error error, done) => (.error (.file error), { session, host, sink := done })

/-- Whatever the sink, this is what becomes of session and host, and the same texts are written. The answer that is given then is not the one of a failed write. -/
def IsPlanned (session : Session) (host : Host) (run : Sink → Except BuiltinError Status × Shell) :
    Prop :=
  ∃ texts answer, answer ≠ .error (.file .outputClosed) ∧
    ∀ sink, run sink = deliver session host texts answer sink

theorem isPlanned_silent (session : Session) (host : Host) {answer : Except BuiltinError Status}
    (h : answer ≠ .error (.file .outputClosed)) :
    IsPlanned session host fun sink => (answer, { session, host, sink }) :=
  ⟨[], answer, h, fun _ => rfl⟩

variable (shell : Shell)

theorem isPlanned_writeAnswer (texts : List Text) :
    IsPlanned shell.session shell.host fun sink => writeAnswer { shell with sink } texts := by
  refine ⟨texts, .ok 0, by simp, ?_⟩
  intro sink
  show writeAnswer { shell with sink } texts = _
  rw [writeAnswer, Shell.write, deliver]
  rcases sink.writeAll texts with ⟨_ | _, done⟩ <;> rfl

theorem isPlanned_runEnv (arguments : List Text) :
    IsPlanned shell.session shell.host fun sink => runEnv { shell with sink } arguments := by
  by_cases h : arguments.isEmpty = true
  · simp only [runEnv, h, if_true]
    exact isPlanned_writeAnswer shell _
  · simp only [runEnv, h]
    exact isPlanned_silent _ _ (by simp [BuiltinError.usage])

theorem isPlanned_runTopics (topics : List Text) :
    IsPlanned shell.session shell.host fun sink => runTopics { shell with sink } topics := by
  induction topics with
  | nil => exact isPlanned_silent _ _ (by simp)
  | cons name rest ih =>
    cases hname : ofName? name with
    | none =>
      simp only [runTopics, hname]
      exact isPlanned_silent _ _ (by simp [BuiltinError.noHelp])
    | some builtin =>
      obtain ⟨texts, answer, hanswer, hrest⟩ := ih
      refine ⟨builtin.topic :: texts, answer, hanswer, ?_⟩
      intro sink
      show runTopics { shell with sink } (name :: rest) = _
      rw [runTopics, hname]
      dsimp only
      rw [writeAnswer, Shell.write, deliver, Sink.writeAll, Sink.writeAll]
      dsimp only
      -- A failed write ends both at once: the session is the same as in front of it.
      rcases sink.write builtin.topic.utf8 with ⟨_ | _, next⟩
      · rfl
      · exact hrest next

theorem isPlanned_runHelp (arguments : List Text) :
    IsPlanned shell.session shell.host fun sink => runHelp { shell with sink } arguments := by
  by_cases h : arguments.isEmpty = true
  · simp only [runHelp, h, if_true]
    exact isPlanned_writeAnswer shell _
  · simp only [runHelp, h]
    exact isPlanned_runTopics shell arguments

theorem isPlanned_runExit (arguments : List Text) :
    ∃ exitRequest, IsPlanned { shell.session with exitRequest } shell.host fun sink =>
      runExit { shell with sink } arguments := by
  cases harguments : arguments.head? with
  | none =>
    simp only [runExit, harguments]
    exact ⟨_, isPlanned_silent _ _ (by simp)⟩
  | some word =>
    cases hstatus : exitStatus? word with
    | some status =>
      simp only [runExit, harguments, hstatus]
      exact ⟨_, isPlanned_silent _ _ (by simp)⟩
    | none =>
      simp only [runExit, harguments, hstatus]
      exact ⟨_, isPlanned_silent _ _ (by simp [BuiltinError.illegalNumber])⟩

theorem isPlanned_runSetenv (arguments : List Text) :
    ∃ environment, IsPlanned { shell.session with environment } shell.host fun sink =>
      runSetenv { shell with sink } arguments := by
  rcases arguments with _ | ⟨name, _ | ⟨value, _ | ⟨other, rest⟩⟩⟩
  case cons.cons.nil =>
    cases hset : shell.session.environment.set name value with
    | ok environment =>
      simp only [runSetenv, hset]
      exact ⟨_, isPlanned_silent _ _ (by simp)⟩
    | error error =>
      simp only [runSetenv, hset]
      exact ⟨_, isPlanned_silent _ _ (by simp)⟩
  all_goals exact ⟨_, isPlanned_silent _ _ (by simp [BuiltinError.usage])⟩

theorem isPlanned_runUnsetenv (arguments : List Text) :
    ∃ environment, IsPlanned { shell.session with environment } shell.host fun sink =>
      runUnsetenv { shell with sink } arguments := by
  rcases arguments with _ | ⟨name, _ | ⟨other, rest⟩⟩
  case cons.nil =>
    cases herase : shell.session.environment.erase name with
    | ok environment =>
      simp only [runUnsetenv, herase]
      exact ⟨_, isPlanned_silent _ _ (by simp)⟩
    | error error =>
      simp only [runUnsetenv, herase]
      exact ⟨_, isPlanned_silent _ _ (by simp)⟩
  all_goals exact ⟨_, isPlanned_silent _ _ (by simp [BuiltinError.usage])⟩

variable {shell} in
theorem directoryFor_ne_outputClosed {argument : Option Text} {error : BuiltinError}
    (h : directoryFor shell argument = .error error) : error ≠ .file .outputClosed := by
  rw [directoryFor.eq_def] at h
  split at h
  case h_4 =>
    split at h
    · simp at h
    · obtain ⟨failure, hdirectory, rfl⟩ := eq_error_of_mapError h
      intro heq
      exact Host.ne_outputClosed_of_workingDirectory hdirectory (BuiltinError.file.inj heq)
  all_goals
    split at h
    · simp at h
    · rw [← Except.error.inj h]
      simp

variable {shell} in
theorem leftDirectory_ne_outputClosed {error : BuiltinError}
    (h : leftDirectory shell = .error error) : error ≠ .file .outputClosed := by
  rw [leftDirectory] at h
  split at h
  · simp at h
  · obtain ⟨failure, hshown, rfl⟩ := eq_error_of_mapError h
    have hdirectory : shell.host.workingDirectory = .error failure := by
      cases hworking : shell.host.workingDirectory with
      | error error =>
        rw [hworking] at hshown
        rw [← Except.error.inj hshown]
      | ok path =>
        rw [hworking] at hshown
        simp [Except.map] at hshown
    intro heq
    exact Host.ne_outputClosed_of_workingDirectory hdirectory (BuiltinError.file.inj heq)

theorem isPlanned_move (target : HostPath) (shown left : Text) (isPrinted : Bool) :
    ∃ environment host, IsPlanned { shell.session with environment } host fun sink =>
      move { shell with sink } target shown left isPrinted := by
  cases henter : shell.host.enter? target with
  | none =>
    simp only [move, henter]
    exact ⟨_, _, isPlanned_silent _ _ (by simp [BuiltinError.cannotEnter])⟩
  | some host =>
    cases hentered : host.workingDirectory with
    | error error =>
      have hother := Host.ne_outputClosed_of_workingDirectory hentered
      simp only [move, henter, hentered]
      exact ⟨_, _, isPlanned_silent _ _ (by simpa using hother)⟩
    | ok entered =>
      cases hnote : noteMove shell.session.environment left entered.shown with
      | error error =>
        simp only [move, henter, hentered, hnote]
        exact ⟨_, _, isPlanned_silent _ _ (by simp)⟩
      | ok environment =>
        simp only [move, henter, hentered, hnote]
        cases isPrinted with
        | false => exact ⟨_, _, isPlanned_silent _ _ (by simp)⟩
        | true =>
          exact ⟨_, _, isPlanned_writeAnswer { (shell.withEnvironment environment) with host } _⟩

theorem isPlanned_cdTo (argument : Option Text) :
    ∃ environment host, IsPlanned { shell.session with environment } host fun sink =>
      match directoryFor shell argument with
      | .error error => (.error error, { shell with sink })
      | .ok target =>
        match leftDirectory shell with
        | .error error => (.error error, { shell with sink })
        | .ok left =>
          move { shell with sink } target (argument.getD target.shown) left
            (argument == some ['-']) := by
  cases hdirectory : directoryFor shell argument with
  | error error =>
    have hother := directoryFor_ne_outputClosed hdirectory
    exact ⟨_, _, isPlanned_silent _ _ (by simpa using hother)⟩
  | ok target =>
    cases hleft : leftDirectory shell with
    | error error =>
      have hother := leftDirectory_ne_outputClosed hleft
      exact ⟨_, _, isPlanned_silent _ _ (by simpa using hother)⟩
    | ok left => exact isPlanned_move shell _ _ _ _

theorem isPlanned_runCd (arguments : List Text) :
    ∃ environment host, IsPlanned { shell.session with environment } host fun sink =>
      runCd { shell with sink } arguments := by
  rcases arguments with _ | ⟨argument, _ | ⟨other, rest⟩⟩
  · exact isPlanned_cdTo shell none
  · exact isPlanned_cdTo shell (some argument)
  · exact ⟨_, _, isPlanned_silent _ _ (by simp [BuiltinError.tooManyArguments])⟩

theorem isPlanned_run (builtin : Builtin) (arguments : List Text) :
    ∃ session host, IsPlanned session host fun sink => builtin.run { shell with sink } arguments := by
  cases builtin with
  | cd =>
    obtain ⟨environment, host, hplanned⟩ := isPlanned_runCd shell arguments
    exact ⟨_, host, hplanned⟩
  | env => exact ⟨_, _, isPlanned_runEnv shell arguments⟩
  | exit =>
    obtain ⟨exitRequest, hplanned⟩ := isPlanned_runExit shell arguments
    exact ⟨_, _, hplanned⟩
  | help => exact ⟨_, _, isPlanned_runHelp shell arguments⟩
  | setenv =>
    obtain ⟨environment, hplanned⟩ := isPlanned_runSetenv shell arguments
    exact ⟨_, _, hplanned⟩
  | unsetenv =>
    obtain ⟨environment, hplanned⟩ := isPlanned_runUnsetenv shell arguments
    exact ⟨_, _, hplanned⟩

end Builtin

/-! ### Commands with little room -/

namespace Builtin

variable (session : Session) (host : Host) {texts : List Text} (answer : Except BuiltinError Status)
  (sink : Sink)

theorem deliver_unlimited :
    deliver session host texts answer (sink.withRoom none) =
      (answer, { session, host, sink := (sink.print (texts.map Text.utf8)).withRoom none }) := by
  rw [deliver, Sink.writeAll_unlimited]

theorem deliver_of_le {room : Nat} (h : (Sink.bytesOf texts).length ≤ room) :
    deliver session host texts answer (sink.withRoom (some room)) =
      (answer,
        { session, host,
          sink := (sink.print (texts.map Text.utf8)).withRoom
            (some (room - (Sink.bytesOf texts).length)) }) := by
  rw [deliver, Sink.writeAll_of_le sink h]

theorem deliver_of_lt {room : Nat} (h : room < (Sink.bytesOf texts).length) :
    ∃ pieces : List Bytes, pieces.flatten = (Sink.bytesOf texts).take room ∧
      deliver session host texts answer (sink.withRoom (some room)) =
        (.error (.file .outputClosed),
          { session, host, sink := (sink.print pieces).withRoom (some 0) }) := by
  obtain ⟨pieces, hpieces, hwritten⟩ := Sink.writeAll_of_lt sink h
  refine ⟨pieces, hpieces, ?_⟩
  rw [deliver, hwritten]

end Builtin

namespace Shell

def withRoom (shell : Shell) (room : Option Nat) : Shell :=
  { shell with sink := shell.sink.withRoom room }

/-- The answer of a command whose output could not be written. -/
def IsLost (answer : Except ShellError Status) : Prop :=
  ∃ builtin : Builtin, answer = .error (.builtin builtin.name (.file .outputClosed))

/-- How the answer to a command depends on the room that is left: if `bytes` fit, all goes as without a limit, and if not, what fits of them is written. -/
structure Metered (shell : Shell) (dispatch : Shell → Except ShellError Status × Shell)
    (bytes : Bytes) (answer : Except ShellError Status) (later : Shell) : Prop where
  output : later.sink.output = shell.sink.output ++ bytes
  notLost : ¬IsLost answer
  unlimited : dispatch (shell.withRoom none) = (answer, later.withRoom none)
  fits : ∀ {room : Nat}, bytes.length ≤ room →
    dispatch (shell.withRoom (some room)) = (answer, later.withRoom (some (room - bytes.length)))
  lost : ∀ {room : Nat}, room < bytes.length →
    ∃ builtin : Builtin, ∃ pieces : List Bytes, ∃ session host,
      pieces.flatten = bytes.take room ∧
        dispatch (shell.withRoom (some room)) =
          (.error (.builtin builtin.name (.file .outputClosed)),
            { session, host, sink := (shell.sink.print pieces).withRoom (some 0) })

variable [Children]

theorem exists_metered_builtin (shell : Shell) {name : Text} {builtin : Builtin}
    (hname : Builtin.ofName? name = some builtin) (arguments : List Text) :
    ∃ bytes answer later, shell.Metered (fun shell => shell.dispatch name arguments)
      bytes answer later := by
  obtain ⟨session, host, texts, answer, hanswer, hrun⟩ :=
    Builtin.isPlanned_run shell builtin arguments
  have hdispatch (room : Option Nat) : (shell.withRoom room).dispatch name arguments =
      ((Builtin.deliver session host texts answer (shell.sink.withRoom room)).1.mapError
          (.builtin builtin.name),
        (Builtin.deliver session host texts answer (shell.sink.withRoom room)).2) := by
    rw [dispatch, hname, ← hrun]
    rfl
  refine ⟨Sink.bytesOf texts, answer.mapError (.builtin builtin.name),
    { session, host, sink := shell.sink.print (texts.map Text.utf8) }, ?_, ?_, ?_, ?_, ?_⟩
  · exact Sink.output_print _ _
  · rintro ⟨other, hlost⟩
    obtain ⟨error, hresult, herror⟩ := eq_error_of_mapError hlost
    rw [hresult, (ShellError.builtin.inj herror).2] at hanswer
    exact hanswer rfl
  · rw [hdispatch, Builtin.deliver_unlimited]
    rfl
  · intro room hroom
    rw [hdispatch, Builtin.deliver_of_le _ _ _ _ hroom]
    rfl
  · intro room hroom
    obtain ⟨pieces, hpieces, hdeliver⟩ :=
      Builtin.deliver_of_lt session host answer shell.sink hroom
    refine ⟨builtin, pieces, session, host, hpieces, ?_⟩
    rw [hdispatch, hdeliver]
    rfl

theorem exists_metered_external (shell : Shell) {name : Text} (hname : Builtin.ofName? name = none)
    (arguments : List Text) :
    ∃ bytes answer later, shell.Metered (fun shell => shell.dispatch name arguments)
      bytes answer later := by
  have hdispatch (room : Option Nat) : (shell.withRoom room).dispatch name arguments =
      ((shell.host.run (name :: arguments) shell.session.environment).result.mapError .process,
        { shell with
          host := (shell.host.run (name :: arguments) shell.session.environment).host
          sink := (shell.sink.addAll
            ((shell.host.run (name :: arguments) shell.session.environment).writes.map
              .child)).withRoom room }) := by
    rw [dispatch, hname, ← Sink.addAll_withRoom]
    rfl
  generalize shell.host.run (name :: arguments) shell.session.environment = ran at hdispatch
  refine ⟨[], ran.result.mapError .process,
    { shell with host := ran.host, sink := shell.sink.addAll (ran.writes.map .child) },
    ?_, ?_, ?_, ?_, ?_⟩
  · rw [List.append_nil]
    exact Sink.output_addAll_child _ _
  · rintro ⟨builtin, hlost⟩
    obtain ⟨error, -, herror⟩ := eq_error_of_mapError hlost
    simp at herror
  · exact hdispatch none
  · intro room _
    exact hdispatch (some room)
  · intro room hroom
    exact absurd hroom (Nat.not_lt_zero room)

theorem exists_metered_dispatch (shell : Shell) (name : Text) (arguments : List Text) :
    ∃ bytes answer later, shell.Metered (fun shell => shell.dispatch name arguments)
      bytes answer later := by
  cases hname : Builtin.ofName? name with
  | some builtin => exact shell.exists_metered_builtin hname arguments
  | none => exact shell.exists_metered_external hname arguments

end Shell

end CommandShell
