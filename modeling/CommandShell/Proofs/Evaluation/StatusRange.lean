import CommandShell.Invocation
import CommandShell.Proofs.Evaluation.Invariant
import CommandShell.Proofs.Evaluation.Meaning

/-!
# The range of statuses

A status comes from a child, from an error, from `exit` with a number, or from `exit` without one, which takes the status of whatever ran before. The last of these reaches back over the whole run, so that statuses stay between 0 and 255 is an invariant of a session together with its wish to exit and not a property of single commands.

A host passes on the lowest eight bits of the status that a program ends with. Since statuses stay in range, nothing is lost by this: the program's exit code is the status that its run came to.
-/

namespace CommandShell

/-! ### Reports -/

def Event.report? : Event → Option Report
  | report told => some told
  | _ => none

def Sink.reports (sink : Sink) : List Report :=
  sink.events.filterMap Event.report?

namespace Shell

theorem Change.reports {before later : Shell} (h : before.Change later) :
    later.sink.reports = before.sink.reports := by
  cases h with
  | write bytes room =>
    change (before.sink.add (.output bytes)).reports = _
    simp [Sink.reports, Event.report?]
  | child written => simp [Sink.reports, Event.report?]
  | edit edit => rfl
  | ask code hcode => rfl
  | record status hstatus => rfl
  | host host => rfl

/-- A command tells one error at most, and its status stays behind. -/
theorem Settles.reports {before later : Shell} (h : before.Settles later) :
    later.sink.reports = before.sink.reports ∨
      ∃ told : Report, later.sink.reports = before.sink.reports ++ [told] ∧
        later.session.status = told.error.status := by
  cases h with
  | quiet hchanges => exact .inl (eq_of_changes Change.reports hchanges)
  | @told quiet hchanges error hstatus =>
    refine .inr ⟨quiet.session.report error, ?_, hstatus⟩
    rw [← eq_of_changes Change.reports hchanges]
    simp [Sink.reports, Shell.report, Event.report?]

theorem Settles.status_mem {before later : Shell} (h : before.Settles later)
    (hreports : later.sink.reports ≠ before.sink.reports) :
    later.session.status ∈ ([1, 2, 126, 127] : List Status) := by
  rcases h.reports with hsame | ⟨told, -, hstatus⟩
  · exact absurd hsame hreports
  · rw [hstatus]
    exact told.error.status_mem

end Shell

/-! ### The invariant -/

structure Session.Bounded (session : Session) : Prop where
  status : InRange session.status
  exitRequest : ∀ code, session.exitRequest = some code → InRange code

namespace Shell

theorem isInvariant_bounded : IsInvariant fun shell => shell.session.Bounded := by
  constructor
  · intro before later hchange h
    cases hchange with
    | ask code hcode =>
      refine ⟨h.status, ?_⟩
      intro asked hasked
      rw [← Option.some.inj hasked]
      rcases hcode with heq | hrange
      · rw [heq]
        exact h.status
      · exact hrange
    | record status hstatus =>
      refine ⟨?_, h.exitRequest⟩
      rcases hstatus with hrange | hasked
      · exact hrange
      · exact h.exitRequest status hasked
    | edit edit => exact ⟨h.status, h.exitRequest⟩
    | host host => exact h
    | write bytes room => exact h
    | child written => exact h
  · intro shell error h
    exact h
  · intro shell argv h
    exact ⟨h.status, h.exitRequest⟩
  · intro shell raw h
    exact ⟨h.status, h.exitRequest⟩

/-- Both the shell and the code that it stops with are in range. -/
structure InBounds (result : Flow × Shell) : Prop where
  bounded : result.2.session.Bounded
  inRange : ∀ code, result.1 = .stop code → InRange code

theorem inBounds_proceed {shell : Shell} (h : shell.session.Bounded) : InBounds (.proceed, shell) := by
  refine ⟨h, ?_⟩
  intro code hcode
  simp at hcode

theorem inBounds_followedBy {first second : Meaning} {shell : Shell} (hfirst : InBounds (first shell))
    (hsecond : ∀ next : Shell, next.session.Bounded → InBounds (second next)) :
    InBounds (first.followedBy second shell) := by
  rw [Meaning.followedBy]
  rcases hresult : first shell with ⟨_ | code, next⟩
  · rw [hresult] at hfirst
    exact hsecond next hfirst.bounded
  · rw [hresult] at hfirst
    exact hfirst

theorem settled_runChain [Children] (shell : Shell) (chain : Chain) :
    Settled (shell.runChain true chain.first chain.rest) := by
  rw [runChain_eq_denote]
  exact CommandList.settled_denote_ofSteps _ _ _

theorem exitRequest_of_settled {result : Flow × Shell} (h : Settled result) {code : Status}
    (hcode : result.1 = .stop code) : result.2.session.exitRequest = some code := by
  rw [Settled, hcode] at h
  cases hrequest : result.2.session.exitRequest with
  | none =>
    rw [hrequest] at h
    simp [Flow.ofRequest] at h
  | some asked =>
    rw [hrequest] at h
    rw [Flow.stop.inj h]

theorem exitRequest_of_stop [Children] {shell : Shell} {raw : Text} {code : Status}
    (h : (shell.runLine raw).1 = .stop code) :
    (shell.runLine raw).2.session.exitRequest = some code := by
  rw [runLine] at h ⊢
  cases hmisplaced : misplaced? (withoutComment raw) with
  | some error =>
    rw [hmisplaced] at h
    simp at h
  | none =>
    rw [hmisplaced] at h
    exact exitRequest_of_settled (settled_runChain _ _) h

theorem inBounds_runLine [Children] {shell : Shell} (h : shell.session.Bounded) (raw : Text) :
    InBounds (shell.runLine raw) := by
  have hbounded := isInvariant_bounded.runLine h raw
  refine ⟨hbounded, ?_⟩
  intro code hcode
  exact hbounded.exitRequest code (exitRequest_of_stop hcode)

theorem inBounds_runLines [Children] {shell : Shell} (h : shell.session.Bounded) (lines : List Text) :
    InBounds (shell.runLines lines) := by
  induction lines generalizing shell with
  | nil => exact inBounds_proceed h
  | cons line rest ih =>
    change InBounds (Meaning.followedBy (fun shell => shell.runLine line)
      (fun shell => shell.runLines rest) shell)
    exact inBounds_followedBy (inBounds_runLine h line) fun _ hnext => ih hnext

theorem source_cases_inBounds [Children] {shell : Shell} (h : shell.session.Bounded) (files : StartupFiles) :
    (∃ error, shell.source files = (.error error, shell)) ∨
      ∃ flow next, shell.source files = (.ok flow, next) ∧ InBounds (flow, next) := by
  rw [source]
  split
  · cases files.isRequired with
    | true => exact .inl ⟨_, rfl⟩
    | false => exact .inr ⟨.proceed, shell, rfl, inBounds_proceed h⟩
  · split
    · exact .inl ⟨_, rfl⟩
    · exact .inr ⟨_, _, rfl, inBounds_runLines h _⟩

/-! ### Runs of the program -/

theorem inBounds_turn [Children] {shell : Shell} (h : shell.session.Bounded) (reading : Reading) :
    InBounds (shell.turn reading) := by
  cases reading with
  | line raw =>
    obtain ⟨hbounded, hrange⟩ := inBounds_runLine h raw
    exact ⟨hbounded, hrange⟩
  | interrupted => exact inBounds_proceed h

theorem session_showPrompt (shell : Shell) (prompt : Option Text) :
    (shell.showPrompt prompt).session = shell.session := by
  cases prompt <;> rfl

theorem inBounds_runReadings [Children] {shell : Shell} (h : shell.session.Bounded) (prompt : Option Text)
    (readings : List Reading) : InBounds (shell.runReadings prompt readings) := by
  have hprompted (shell : Shell) (h : shell.session.Bounded) :
      (shell.showPrompt prompt).session.Bounded := by rwa [session_showPrompt]
  induction readings generalizing shell with
  | nil => exact inBounds_proceed (hprompted shell h)
  | cons reading rest ih =>
    change InBounds (Meaning.followedBy (fun shell => (shell.showPrompt prompt).turn reading)
      (fun shell => shell.runReadings prompt rest) shell)
    exact inBounds_followedBy (inBounds_turn (hprompted shell h) reading) fun _ hnext => ih hnext

theorem inBounds_runTerminal [Children] {shell : Shell} (h : shell.session.Bounded) (source : LineSource) :
    InBounds (shell.runTerminal source) := by
  have hlines := inBounds_runReadings h (some prompt) source.readings
  rw [runTerminal]
  rcases hresult : shell.runReadings (some prompt) source.readings with ⟨_ | code, next⟩
  · rw [hresult] at hlines
    dsimp only
    split
    · exact inBounds_proceed hlines.bounded
    · refine ⟨hlines.bounded, ?_⟩
      intro code hcode
      rw [← Flow.stop.inj hcode]
      decide
    · exact inBounds_proceed hlines.bounded
  · rw [hresult] at hlines
    exact hlines

theorem inBounds_runInteractive [Children] {shell : Shell} (h : shell.session.Bounded) (rc : Option Text)
    (source : LineSource) : InBounds (shell.runInteractive rc source) := by
  rw [runInteractive]
  cases StartupFiles.ofHost shell.host rc with
  | error error => exact inBounds_runTerminal h source
  | ok files =>
    dsimp only
    rcases source_cases_inBounds h files with ⟨error, hsource⟩ | ⟨flow, next, hsource, hnext⟩
    · rw [hsource]
      have htold : (shell.report (.startup error)).session.Bounded := h
      exact inBounds_runTerminal htold source
    · rw [hsource]
      cases flow with
      | proceed => exact inBounds_runTerminal hnext.bounded source
      | stop code => exact hnext

/-! ### Exit codes -/

/-- The status that a run comes to. -/
def endStatus : Flow × Shell → Status
  | (.stop code, _) => code
  | (.proceed, shell) => shell.session.status

theorem InBounds.inRange_endStatus {result : Flow × Shell} (h : InBounds result) :
    InRange (endStatus result) := by
  obtain ⟨_ | code, shell⟩ := result
  · exact h.bounded.status
  · exact h.inRange code rfl

theorem code_finish {result : Flow × Shell} (h : InRange (endStatus result)) :
    ((finish result).code : Status) = endStatus result := by
  have hcode : (finish result).code = (endStatus result % 256).toNat := by
    obtain ⟨_ | code, shell⟩ := result <;> rfl
  obtain ⟨hnonneg, hle⟩ := h
  rw [hcode, Int.toNat_of_nonneg (Int.emod_nonneg _ (by decide))]
  exact Int.emod_eq_of_lt hnonneg (Int.lt_of_le_of_lt hle (by decide))

end Shell

namespace Invocation

/-- What the run of the shell comes to, unless it fails before its first line. -/
def result [Children] (invocation : Invocation) (options : Options) : Except ShellError (Flow × Shell) :=
  match options.positionals with
  | [] =>
    if invocation.isTerminal then
      .ok <| (invocation.shell [] (.ofEnvironment invocation.environment.text?)).runInteractive
        (options.value? .config) (.ofTerminal invocation.input)
    else
      .ok <| (invocation.shell [] .plain).runStream (.ofStream invocation.input)
  | [script] =>
    let shell := invocation.shell [script] .plain
    (shell.host.openScript script).map shell.runStream
  | _ => .error (.invocation "too many arguments".toList)

theorem start_eq_finish [Children] (invocation : Invocation) (options : Options) {result : Flow × Shell}
    (h : invocation.result options = .ok result) :
    invocation.start options = Shell.finish result := by
  have hstart : invocation.start options =
      match invocation.result options with
      | .ok result => Shell.finish result
      | .error error => invocation.failed error := by
    rw [start, Invocation.result]
    rcases options.positionals with _ | ⟨script, _ | ⟨second, others⟩⟩
    · cases invocation.isTerminal <;> rfl
    · dsimp only
      cases (invocation.shell [script] .plain).host.openScript script <;> rfl
    · rfl
  rw [hstart, h]

theorem inBounds_result [Children] (invocation : Invocation) (options : Options) {result : Flow × Shell}
    (h : invocation.result options = .ok result) : Shell.InBounds result := by
  have hshell (positionals : List Text) (palette : Palette) :
      (invocation.shell positionals palette).session.Bounded :=
    ⟨(by decide : InRange 0), by simp [shell]⟩
  rw [Invocation.result.eq_def] at h
  split at h
  · split at h
    · rw [← Except.ok.inj h]
      exact Shell.inBounds_runInteractive (hshell _ _) _ _
    · rw [← Except.ok.inj h]
      exact Shell.inBounds_runReadings (hshell _ _) none _
  · next script hscript =>
    dsimp only at h
    cases hopen : (invocation.shell [script] .plain).host.openScript script with
    | error error =>
      rw [hopen] at h
      simp [Except.map] at h
    | ok source =>
      rw [hopen] at h
      rw [← Except.ok.inj h]
      exact Shell.inBounds_runReadings (hshell _ _) none _
  · simp at h

end Invocation

/-- Whatever lines and startup files a new session has run, its status and its wish to exit are in range, and so is every code that it stops with. A command that tells an error leaves one of four statuses behind, none of them 0, and a rejected line leaves 2. So a program ends with the status that its run came to. -/
theorem Shell.inRange_of_reaches [Children] (args : List Text) (environment : Environment) (processId : Text)
    (palette : Palette) (host : Host) (sink : Sink) (later : Shell)
    (h : Reaches { session := { args, environment, processId, palette }, host, sink } later) :
    InRange later.session.status ∧
      (∀ code, later.session.exitRequest = some code → InRange code) ∧
      (∀ raw code, (later.runLine raw).1 = .stop code → InRange code) ∧
      (∀ files code, (later.source files).1 = .ok (.stop code) → InRange code) ∧
      (∀ (shell : Shell) (command : Text),
        (shell.runCommand command).sink.reports ≠ shell.sink.reports →
        (shell.runCommand command).session.status ∈ ([1, 2, 126, 127] : List Status)) ∧
      (∀ (shell : Shell) (raw : Text), misplaced? (withoutComment raw) ≠ none →
        (shell.runLine raw).2.sink.reports ≠ shell.sink.reports ∧
          (shell.runLine raw).2.session.status = 2) ∧
      ∀ (invocation : Invocation) (options : Options) (result : Flow × Shell),
        invocation.result options = .ok result →
        InRange (endStatus result) ∧ ((invocation.start options).code : Status) = endStatus result := by
  have hstart : Session.Bounded { args, environment, processId, palette } :=
    ⟨(by decide : InRange 0), by simp⟩
  have hlater : later.session.Bounded := isInvariant_bounded.reaches h hstart
  refine ⟨hlater.status, hlater.exitRequest, ?_, ?_, ?_, ?_, ?_⟩
  · intro raw code hcode
    exact (inBounds_runLine hlater raw).inRange code hcode
  · intro files code hcode
    rcases source_cases_inBounds hlater files with ⟨error, hsource⟩ | ⟨flow, next, hsource, hnext⟩
    · rw [hsource] at hcode
      simp at hcode
    · rw [hsource] at hcode
      exact hnext.inRange code (Except.ok.inj hcode)
  · intro shell command hreports
    rw [runCommand_eq_perform] at hreports ⊢
    exact (shell.settles_perform _).status_mem hreports
  · intro shell raw hmisplaced
    obtain ⟨error, herror⟩ := Option.ne_none_iff_exists'.1 hmisplaced
    rw [runLine, herror]
    refine ⟨?_, rfl⟩
    simp [Sink.reports, conclude, Shell.report, Event.report?, beginLine, withStatus]
  · intro invocation options result hresult
    have hrange := (invocation.inBounds_result options hresult).inRange_endStatus
    rw [invocation.start_eq_finish options hresult]
    exact ⟨hrange, code_finish hrange⟩

/-- A run of the program that reads one line from its standard input. -/
def Invocation.ofLine (line : Text) : Invocation :=
  { name := "hsh".toList
    arguments := []
    environment := []
    host := {}
    input := line.utf8
    isTerminal := false
    processId := ['1'] }

open Children.Performing

theorem Shell.inRange_of_reaches_exit :
    bare.Reaches (bare.runLine "nope".toList).2 ∧
      (bare.runLine "nope".toList).2.session.status = 127 ∧
      InRange (bare.runLine "nope".toList).2.session.status ∧
      ((bare.runLine "nope".toList).2.runLine "exit".toList).1 = .stop 127 ∧
      InRange 127 ∧
      (bare.runCommand "nope".toList).session.status ∈ ([1, 2, 126, 127] : List Status) ∧
      (((Invocation.ofLine "exit 300".toList).start {}).code : Status) = 44 := by
  have hreaches : bare.Reaches (bare.runLine "nope".toList).2 := .line .refl _
  obtain ⟨hstatus, -, hline, -, hcommand, -, hcode⟩ :=
    inRange_of_reaches [] {} ['1'] .plain {} {} _ hreaches
  refine ⟨hreaches, by decide, hstatus, by decide, ?_, hcommand bare "nope".toList (by decide), ?_⟩
  · exact hline "exit".toList 127 (by decide)
  · exact (hcode (.ofLine "exit 300".toList) {} _ rfl).2.trans (by decide)

end CommandShell
