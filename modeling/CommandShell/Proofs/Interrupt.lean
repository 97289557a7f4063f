import CommandShell.Interrupt
import CommandShell.Invocation

/-!
# Interrupts by their history

The flag is lowered in two places, by the question for it and behind the wait for a child, and before a command gets there it can fail in many ways that must leave the flag alone: its words may come to nothing, it may not be found or not start, and the wait itself may fail. Whether a question is answered with yes therefore depends on all that happened before it. Here the answer is read off this history: there was an interrupt, and behind it no question and no child that was waited for.

What happened is taken from the answers to the steps. Every command may find another tree, another place and other variables than the one before it, and children are free to do what they like.
-/

namespace CommandShell

/-- Children that end unseen, so that no wait for them succeeds. -/
@[reducible]
def Children.lost : Children where
  conduct tree location _ := { tree, location, waited := .error .missing }

/-- A step with the answer to it. -/
structure InterruptMoment where
  step : InterruptStep
  answer : InterruptAnswer

namespace InterruptMoment

/-- The step asks for the flag, or it runs a command, with words, that has a status. -/
def Lowers (moment : InterruptMoment) : Prop :=
  moment.step = .take ∨
    ∃ name arguments environment writes status,
      moment.step = .run (name :: arguments) environment ∧ moment.answer = .ran writes (.ok status)

end InterruptMoment

/-- There was an interrupt, and nothing has lowered the flag since. -/
def IsPending (moments : List InterruptMoment) : Prop :=
  ∃ earlier interrupt later, moments = earlier ++ interrupt :: later ∧ interrupt.step = .raise ∧
    ∀ moment ∈ later, ¬moment.Lowers

@[simp]
theorem not_isPending_nil : ¬IsPending [] := by
  rintro ⟨earlier, interrupt, later, hsplit, -⟩
  simp at hsplit

theorem isPending_cons {moment : InterruptMoment} {rest : List InterruptMoment} :
    IsPending (moment :: rest) ↔
      (moment.step = .raise ∧ ∀ later ∈ rest, ¬later.Lowers) ∨ IsPending rest := by
  constructor
  · rintro ⟨earlier, interrupt, later, hsplit, hraise, hlater⟩
    rcases List.cons_eq_append_iff.1 hsplit with ⟨rfl, hhead⟩ | ⟨more, rfl, hrest⟩
    · obtain ⟨rfl, rfl⟩ := List.cons.inj hhead
      exact .inl ⟨hraise, hlater⟩
    · exact .inr ⟨more, interrupt, later, hrest, hraise, hlater⟩
  · rintro (⟨hraise, hlater⟩ | ⟨earlier, interrupt, later, rfl, hraise, hlater⟩)
    · exact ⟨[], moment, rest, rfl, hraise, hlater⟩
    · exact ⟨moment :: earlier, interrupt, later, rfl, hraise, hlater⟩

namespace Host

/-- The flag lowered, if the process minds interrupts. -/
def loweredInterrupt (host : Host) : Option InterruptFlag :=
  host.interrupt.map fun _ => { isRaised := false }

theorem interrupt_takeInterrupt (host : Host) :
    host.takeInterrupt.2.interrupt = host.loweredInterrupt := by
  rw [takeInterrupt, loweredInterrupt]
  cases hflag : host.interrupt with
  | none => exact hflag
  | some flag => rfl

end Host

/-! ### The loop over the input -/

namespace Shell

theorem isRaised_forgetInterrupt (shell : Shell) :
    shell.forgetInterrupt.host.takeInterrupt.1 = false := by
  rw [Host.takeInterrupt, forgetInterrupt, Host.interrupt_takeInterrupt, Host.loweredInterrupt]
  cases shell.host.interrupt <;> rfl

/-- No reading finds the note of an interrupt from before. -/
theorem isRaised_turn [Children] (shell : Shell) (reading : Reading) :
    (shell.turn reading).2.host.takeInterrupt.1 = false := by
  cases reading with
  | line raw => exact isRaised_forgetInterrupt _
  | interrupted => exact isRaised_forgetInterrupt _

theorem host_showPrompt (shell : Shell) (prompt : Option Text) :
    (shell.showPrompt prompt).host = shell.host := by
  cases prompt <;> rfl

/-- However much is read and run, an interrupt is at most noted until the next reading is done. -/
theorem isRaised_runReadings [Children] {shell : Shell} (h : shell.host.takeInterrupt.1 = false)
    (prompt : Option Text) (readings : List Reading) :
    (shell.runReadings prompt readings).2.host.takeInterrupt.1 = false := by
  induction readings generalizing shell with
  | nil =>
    rw [runReadings, host_showPrompt]
    exact h
  | cons reading rest ih =>
    have hturn := (shell.showPrompt prompt).isRaised_turn reading
    rw [runReadings]
    rcases hresult : (shell.showPrompt prompt).turn reading with ⟨_ | code, next⟩
    · rw [hresult] at hturn
      exact ih hturn
    · rw [hresult] at hturn
      exact hturn

end Shell

namespace Host

/-! ### Runs -/

theorem interrupt_await_of_error {host : Host} {name : Text} {conduct : Conduct} {error : ProcessError}
    (h : (host.await name conduct).result = .error error) :
    (host.await name conduct).host.interrupt = host.interrupt := by
  rw [await.eq_def] at h ⊢
  cases hwaited : conduct.waited with
  | error error => rfl
  | ok ending =>
    rw [hwaited] at h
    simp at h

theorem interrupt_await_of_ok {host : Host} {name : Text} {conduct : Conduct} {status : Status}
    (h : (host.await name conduct).result = .ok status) :
    (host.await name conduct).host.interrupt = host.loweredInterrupt := by
  rw [await.eq_def] at h ⊢
  cases hwaited : conduct.waited with
  | error error =>
    rw [hwaited] at h
    simp at h
  | ok ending => exact interrupt_takeInterrupt _

section History

variable [Children] (host : Host)

section Run

variable (environment : Environment)

theorem run_of_launch {name : Text} {arguments : List Text} {launch : Launch}
    (h : host.launch name arguments environment = .ok launch) :
    host.run (name :: arguments) environment =
      host.await name (Children.conduct host.tree host.location launch) := by
  rw [run, h]

theorem run_of_not_launch {name : Text} {arguments : List Text} {error : ProcessError}
    (h : host.launch name arguments environment = .error error) :
    host.run (name :: arguments) environment = { result := .error error, host } := by
  rw [run, h]

/-- Without words, or without a child that was waited for, a command leaves the flag alone. -/
theorem interrupt_run_of_error {argv : List Text}
    (h : argv = [] ∨ ∃ error, (host.run argv environment).result = .error error) :
    (host.run argv environment).host.interrupt = host.interrupt := by
  cases argv with
  | nil => rfl
  | cons name arguments =>
    obtain ⟨error, herror⟩ := h.resolve_left (List.cons_ne_nil name arguments)
    cases hlaunch : host.launch name arguments environment with
    | error error => rw [run_of_not_launch host environment hlaunch]
    | ok launch =>
      rw [run_of_launch host environment hlaunch] at herror ⊢
      exact interrupt_await_of_error herror

theorem interrupt_run_of_ok {name : Text} {arguments : List Text} {status : Status}
    (h : (host.run (name :: arguments) environment).result = .ok status) :
    (host.run (name :: arguments) environment).host.interrupt = host.loweredInterrupt := by
  cases hlaunch : host.launch name arguments environment with
  | error error =>
    rw [run_of_not_launch host environment hlaunch] at h
    simp at h
  | ok launch =>
    rw [run_of_launch host environment hlaunch] at h ⊢
    exact interrupt_await_of_ok h

end Run

/-! ### One step -/

theorem interrupt_interruptStep {flag : InterruptFlag} (hflag : host.interrupt = some flag)
    (step : InterruptStep) :
    ∃ next, (host.interruptStep step).2.interrupt = some next ∧
      (next.isRaised = true ↔ step = .raise ∨
        flag.isRaised = true ∧ ¬InterruptMoment.Lowers ⟨step, (host.interruptStep step).1⟩) := by
  have hlowered : host.loweredInterrupt = some { isRaised := false } := by
    rw [loweredInterrupt, hflag]
    rfl
  cases step with
  | raise =>
    refine ⟨flag.raise, ?_, by simp [InterruptFlag.raise]⟩
    rw [interruptStep, raiseInterrupt, hflag]
    rfl
  | take => exact ⟨_, host.interrupt_takeInterrupt.trans hlowered, by simp [InterruptMoment.Lowers]⟩
  | run argv environment =>
    cases argv with
    | nil => exact ⟨flag, hflag, by simp [InterruptMoment.Lowers]⟩
    | cons name arguments =>
      cases hrun : (host.run (name :: arguments) environment).result with
      | ok status =>
        refine ⟨_, (host.interrupt_run_of_ok environment hrun).trans hlowered, ?_⟩
        simp [InterruptMoment.Lowers, interruptStep, hrun]
      | error error =>
        refine ⟨flag, (host.interrupt_run_of_error environment (.inr ⟨error, hrun⟩)).trans hflag, ?_⟩
        simp [InterruptMoment.Lowers, interruptStep, hrun]
  | change tree location => exact ⟨flag, hflag, by simp [InterruptMoment.Lowers]⟩

/-! ### Any number of steps -/

/-- The steps in order, each with its answer. -/
def interruptMoments (host : Host) (steps : List InterruptStep) : List InterruptMoment :=
  List.zipWith InterruptMoment.mk steps (host.interruptSteps steps)

/-- The host behind the steps. -/
def afterInterruptSteps (host : Host) : List InterruptStep → Host
  | [] => host
  | step :: rest => (host.interruptStep step).2.afterInterruptSteps rest

theorem interruptMoments_cons (step : InterruptStep) (rest : List InterruptStep) :
    host.interruptMoments (step :: rest) =
      { step, answer := (host.interruptStep step).1 } ::
        (host.interruptStep step).2.interruptMoments rest := rfl

theorem getElem?_interruptSteps (past future : List InterruptStep) (step : InterruptStep) :
    (host.interruptSteps (past ++ step :: future))[past.length]? =
      some ((host.afterInterruptSteps past).interruptStep step).1 := by
  induction past generalizing host with
  | nil => rfl
  | cons first past ih => exact ih (host.interruptStep first).2

/-- The flag is raised behind the steps if one of them left it pending, or if it was raised before and none of them lowered it. -/
theorem interrupt_afterInterruptSteps {flag : InterruptFlag} (hflag : host.interrupt = some flag)
    (steps : List InterruptStep) :
    ∃ next, (host.afterInterruptSteps steps).interrupt = some next ∧
      (next.isRaised = true ↔ IsPending (host.interruptMoments steps) ∨
        flag.isRaised = true ∧ ∀ moment ∈ host.interruptMoments steps, ¬moment.Lowers) := by
  induction steps generalizing host flag with
  | nil => exact ⟨flag, hflag, by simp [interruptMoments]⟩
  | cons step rest ih =>
    obtain ⟨middle, hmiddle, hstep⟩ := host.interrupt_interruptStep hflag step
    obtain ⟨next, hnext, hrest⟩ := ih _ hmiddle
    refine ⟨next, hnext, ?_⟩
    -- An interrupt at the front counts like a flag that was raised before the rest.
    rw [hrest, hstep, interruptMoments_cons, isPending_cons, List.forall_mem_cons, or_and_right, and_assoc,
      or_left_comm, or_assoc]

/-- A question is answered with yes exactly if there was an interrupt behind the last question and the last child that was waited for. Commands without words and commands that fail leave the flag alone, also when the wait for their child fails, and a child that was waited for only ever lowers it, whatever it did and whatever signal ended it. -/
theorem take_answers_pending :
    (∀ (host : Host) (past future : List InterruptStep), host.interrupt = some {} →
      ∃ wasRaised,
        (host.interruptSteps (past ++ .take :: future))[past.length]? = some (.taken wasRaised) ∧
          (wasRaised = true ↔ IsPending (host.interruptMoments past))) ∧
      (∀ (host : Host) (environment : Environment) (argv : List Text),
        (argv = [] ∨ ∃ error, (host.run argv environment).result = .error error) →
        (host.run argv environment).host.interrupt = host.interrupt) ∧
      (∀ (host : Host) (environment : Environment) (name : Text) (arguments : List Text)
          (launch : Launch) (error : FileError),
        host.launch name arguments environment = .ok launch →
        (Children.conduct host.tree host.location launch).waited = .error error →
        (host.run (name :: arguments) environment).result = .error (.notSpawned name error)) ∧
      ∀ (host : Host) (environment : Environment) (name : Text) (arguments : List Text)
          (launch : Launch) (ending : Ending),
        host.launch name arguments environment = .ok launch →
        (Children.conduct host.tree host.location launch).waited = .ok ending →
        (host.run (name :: arguments) environment).result = .ok ending.status ∧
          (host.run (name :: arguments) environment).host.interrupt = host.loweredInterrupt := by
  refine ⟨?_, ?_, ?_, ?_⟩
  · intro host past future hflag
    obtain ⟨flag, hafter, hraised⟩ := host.interrupt_afterInterruptSteps hflag past
    refine ⟨flag.isRaised, ?_, ?_⟩
    · rw [getElem?_interruptSteps, interruptStep, takeInterrupt, hafter]
      rfl
    · rw [hraised]
      simp
  · intro host environment argv h
    exact host.interrupt_run_of_error environment h
  · intro host environment name arguments launch error hlaunch hwaited
    rw [run_of_launch host environment hlaunch, await, hwaited]
  · intro host environment name arguments launch ending hlaunch hwaited
    have hresult : (host.run (name :: arguments) environment).result = .ok ending.status := by
      rw [run_of_launch host environment hlaunch, await, hwaited]
    exact ⟨hresult, host.interrupt_run_of_ok environment hresult⟩

end History

open Children.Performing

/-- An interrupt is still told of behind a command that is not found, one without words and one whose child is lost, but no more behind a child that ends itself by the signal of an interrupt. -/
theorem take_answers_pending_killed :
    let killed : Entry := .file (.program [.signal 2])
    let host : Host :=
      { tree := { top := .tree (Text.utf8 "k".toList) killed .empty .empty }, interrupt := some {} }
    let failed : List InterruptStep := [.raise, .run ["nope".toList] {}, .run [] {}]
    let killing : InterruptStep := .run ["/k".toList] {}
    (host.interruptSteps (failed ++ [.take]))[3]? = some (.taken true) ∧
      (host.interruptSteps ((failed ++ [killing]) ++ [.take]))[4]? = some (.taken false) ∧
      (@interruptSteps .lost host ((failed ++ [killing]) ++ [.take]))[4]? = some (.taken true) ∧
      (host.raiseInterrupt.run ["nope".toList] {}).host.interrupt = some { isRaised := true } ∧
      (host.raiseInterrupt.run ["/k".toList] {}).result = .ok 130 ∧
      (host.raiseInterrupt.run ["/k".toList] {}).host.interrupt = some { isRaised := false } ∧
      (@run .lost host.raiseInterrupt ["/k".toList] {}).result = .error (.notSpawned "/k".toList .missing) := by
  intro killed host failed killing
  obtain ⟨hanswer, hfailed, -, hwaited⟩ := take_answers_pending
  obtain ⟨hanswerLost, -, hlost, -⟩ := @take_answers_pending .lost
  obtain ⟨launch, hlaunch, hending⟩ : ∃ launch, host.raiseInterrupt.launch "/k".toList [] {} = .ok launch ∧
      (Children.conduct host.tree host.location launch).waited = .ok (.killed 2) := ⟨_, rfl, rfl⟩
  have hpending : IsPending (host.interruptMoments failed) := by
    change IsPending [⟨.raise, .done⟩, ⟨.run ["nope".toList] {}, .ran [] (.error _)⟩,
      ⟨.run [] {}, .ran [] (.ok 0)⟩]
    simp [isPending_cons, InterruptMoment.Lowers]
  have hlowered : ¬IsPending (host.interruptMoments (failed ++ [killing])) := by
    change ¬IsPending [⟨.raise, .done⟩, ⟨.run ["nope".toList] {}, .ran [] (.error _)⟩,
      ⟨.run [] {}, .ran [] (.ok 0)⟩, ⟨killing, .ran [] (.ok 130)⟩]
    simp [isPending_cons, InterruptMoment.Lowers, killing]
  have hkept : IsPending (@interruptMoments .lost host (failed ++ [killing])) := by
    change IsPending [⟨.raise, .done⟩, ⟨.run ["nope".toList] {}, .ran [] (.error _)⟩,
      ⟨.run [] {}, .ran [] (.ok 0)⟩, ⟨killing, .ran [] (.error _)⟩]
    simp [isPending_cons, InterruptMoment.Lowers]
  obtain ⟨_, hyes, hraised⟩ := hanswer host failed [] rfl
  obtain ⟨_, hno, hreaped⟩ := hanswer host (failed ++ [killing]) [] rfl
  obtain ⟨_, hstill, hleft⟩ := hanswerLost host (failed ++ [killing]) [] rfl
  rw [hraised.2 hpending] at hyes
  rw [Bool.eq_false_iff.2 (mt hreaped.1 hlowered)] at hno
  rw [hleft.2 hkept] at hstill
  obtain ⟨hstatus, hflag⟩ := hwaited host.raiseInterrupt {} _ _ launch (.killed 2) hlaunch hending
  exact ⟨hyes, hno, hstill, hfailed _ _ _ (.inr ⟨_, rfl⟩), hstatus, hflag,
    hlost host.raiseInterrupt {} _ _ launch .missing hlaunch rfl⟩

end Host

end CommandShell
