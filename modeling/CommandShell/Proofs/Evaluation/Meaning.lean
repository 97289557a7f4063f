import CommandShell.Proofs.Evaluation.Frame

/-!
# The meaning of a line

A line is a list of and-or lists with `;` between them, and an and-or list is a command, or an and-or list with one more command behind `&&` or `||`. Here a line has a meaning that follows this tree: what a part does to a shell is put together from what its own parts do, and nothing is carried along but the shell itself. `Shell.runLine` has no tree. It walks the commands in the order of the text and carries along whether the next one may run, so what is proved is that such a walk computes the meaning of the tree that the line is read as.

Both evaluators stop behind the first command that finds a wish to exit. On the side of the tree this is `Meaning.followedBy`. That it is associative is what lets a tree that groups to the left be walked from the left.
-/

namespace CommandShell

/-- Commands joined by `&&` and `||`, which group to the left. -/
inductive AndOr where
  | command (text : Text)
  | onSuccess (left : AndOr) (text : Text)
  | onFailure (left : AndOr) (text : Text)
  deriving DecidableEq, Repr

/-- What a part of a line does to a shell. -/
abbrev Meaning := Shell → Flow × Shell

/-! ### Putting meanings together -/

namespace Meaning

def skip : Meaning := fun shell => (.proceed, shell)

/-- Does the second after the first, unless the first ends the session. -/
def followedBy (first second : Meaning) : Meaning := fun shell =>
  match first shell with
  | (.stop code, next) => (.stop code, next)
  | (.proceed, next) => second next

/-- Does something only if the status at that moment is as asked for. -/
def provided (condition : Status → Prop) [DecidablePred condition] (meaning : Meaning) : Meaning :=
  fun shell => if condition shell.session.status then meaning shell else skip shell

theorem followedBy_assoc (first second third : Meaning) :
    (first.followedBy second).followedBy third = first.followedBy (second.followedBy third) := by
  funext shell
  simp only [followedBy]
  rcases first shell with ⟨_ | code, next⟩ <;> rfl

theorem provided_of_true {condition : Status → Prop} [DecidablePred condition] {shell : Shell}
    (h : condition shell.session.status) (meaning : Meaning) :
    provided condition meaning shell = meaning shell := by
  rw [provided, if_pos h]

theorem provided_of_false {condition : Status → Prop} [DecidablePred condition] {shell : Shell}
    (h : ¬condition shell.session.status) (meaning : Meaning) :
    provided condition meaning shell = skip shell := by
  rw [provided, if_neg h]

end Meaning

/-! ### The meaning of commands -/

def Flow.ofRequest : Option Status → Flow
  | none => .proceed
  | some code => .stop code

/-- The shell after a failed command: the status of the error is recorded and the error is told, once. -/
def Shell.failedWith (shell : Shell) (error : ShellError) : Shell :=
  { shell with
    session := { shell.session with status := error.status }
    sink := shell.sink.add (.report
      { shell := shell.session.name
        line := shell.session.counter
        error
        palette := shell.session.palette }) }

/-- The shell after one command. The status and the variables that expansion sees are those of the moment. -/
def Shell.afterCommand [Children] (shell : Shell) (command : Text) : Shell :=
  match words (shell.session.scope.expand command) with
  | [] => { shell with session := { shell.session with argv := [] } }
  | name :: arguments =>
    let ready := { shell with session := { shell.session with argv := name :: arguments } }
    match Builtin.ofName? name with
    | some builtin =>
      match builtin.run ready arguments with
      | (.ok status, next) => { next with session := { next.session with status } }
      | (.error error, next) => next.failedWith (.builtin builtin.name error)
    | none =>
      let ran := shell.host.run (name :: arguments) shell.session.environment
      let next :=
        { ready with host := ran.host, sink := shell.sink.addAll (ran.writes.map .child) }
      match ran.result with
      | .ok status => { next with session := { next.session with status } }
      | .error error => next.failedWith (.process error)

/-- A command ends the session if a wish to exit is pending behind it. -/
def Meaning.ofCommand [Children] (command : Text) : Meaning := fun shell =>
  let next := shell.afterCommand command
  (.ofRequest next.session.exitRequest, next)

namespace AndOr

def denote [Children] : AndOr → Meaning
  | command text => .ofCommand text
  | onSuccess left text => left.denote.followedBy (.provided (· = 0) (.ofCommand text))
  | onFailure left text => left.denote.followedBy (.provided (· ≠ 0) (.ofCommand text))

def first : AndOr → Text
  | command text => text
  | onSuccess left _ => left.first
  | onFailure left _ => left.first

/-- The operators and commands behind the first command, in the order of the text. -/
def steps : AndOr → List (Operator × Text)
  | command _ => []
  | onSuccess left text => left.steps ++ [(.onSuccess, text)]
  | onFailure left text => left.steps ++ [(.onFailure, text)]

end AndOr

/-- And-or lists with `;` between them. -/
abbrev CommandList := List AndOr

namespace CommandList

def denote [Children] : CommandList → Meaning
  | [] => .skip
  | list :: rest => list.denote.followedBy (denote rest)

/-- The commands in the order of the text, each with the operator before it. The first one counts as standing behind a `;`. -/
def steps (lists : CommandList) : List (Operator × Text) :=
  lists.flatMap fun list => (.always, list.first) :: list.steps

/-- Reads on behind the and-or list `left`, which a `;` completes and any other operator extends. -/
def ofSteps (left : AndOr) : List (Operator × Text) → CommandList
  | [] => [left]
  | (.always, text) :: rest => left :: ofSteps (.command text) rest
  | (.onSuccess, text) :: rest => ofSteps (.onSuccess left text) rest
  | (.onFailure, text) :: rest => ofSteps (.onFailure left text) rest

def ofChain (chain : Chain) : CommandList :=
  ofSteps (.command chain.first) chain.rest

theorem steps_ofSteps (left : AndOr) (rest : List (Operator × Text)) :
    steps (ofSteps left rest) = (.always, left.first) :: left.steps ++ rest := by
  fun_induction ofSteps left rest with
  | case1 left => simp [steps]
  | case2 left text rest ih =>
    rw [steps, List.flatMap_cons, ← steps, ih]
    simp [AndOr.first, AndOr.steps]
  | case3 left text rest ih => simp [ih, AndOr.first, AndOr.steps]
  | case4 left text rest ih => simp [ih, AndOr.first, AndOr.steps]

/-- Reading a chain as a tree loses nothing and moves nothing. -/
theorem steps_ofChain (chain : Chain) :
    steps (ofChain chain) = (.always, chain.first) :: chain.rest := by
  rw [ofChain, steps_ofSteps]
  simp [AndOr.first, AndOr.steps]

end CommandList

/-! ### The walk computes the meaning -/

theorem Operator.onSuccess_allows (status : Status) :
    onSuccess.allows status = decide (status = 0) := rfl

theorem Operator.onFailure_allows (status : Status) :
    onFailure.allows status = decide (status ≠ 0) := by
  by_cases h : status = 0 <;> simp [allows, h]

namespace Shell

theorem failedWith_eq (shell : Shell) (error : ShellError) :
    shell.failedWith error = (shell.withStatus error.status).report error := rfl

variable [Children]

theorem runCommand_eq_afterCommand (shell : Shell) (command : Text) :
    shell.runCommand command = shell.afterCommand command := by
  rw [runCommand, afterCommand]
  cases words (shell.session.scope.expand command) with
  | nil => rfl
  | cons name arguments =>
    simp only [dispatch]
    cases Builtin.ofName? name with
    | none =>
      simp only [runExternal, failedWith_eq]
      rcases shell.host.run (name :: arguments) shell.session.environment with ⟨writes, _ | _, host⟩ <;>
        rfl
    | some builtin =>
      simp only [failedWith_eq]
      generalize builtin.run _ arguments = ran
      rcases ran with ⟨_ | _, next⟩ <;> rfl

theorem runChain_eq_followedBy (shell : Shell) (command : Text) (rest : List (Operator × Text)) :
    shell.runChain true command rest = (Meaning.ofCommand command).followedBy (resume rest) shell := by
  rw [runChain_true, runCommand_eq_afterCommand, Meaning.followedBy, Meaning.ofCommand]
  cases (shell.afterCommand command).session.exitRequest <;> rfl

theorem resume_always (text : Text) (rest : List (Operator × Text)) :
    resume ((.always, text) :: rest) = (Meaning.ofCommand text).followedBy (resume rest) := by
  funext shell
  exact shell.runChain_eq_followedBy text rest

/-- An operator other than `;` runs its command provided that the status is as it asks for. -/
theorem resume_provided {operator : Operator} {condition : Status → Prop} [DecidablePred condition]
    (hallows : ∀ status, operator.allows status = decide (condition status))
    (text : Text) (rest : List (Operator × Text)) :
    resume ((operator, text) :: rest) =
      (Meaning.provided condition (.ofCommand text)).followedBy (resume rest) := by
  funext shell
  change shell.runChain (operator.allows shell.session.status) text rest = _
  rw [hallows]
  by_cases h : condition shell.session.status
  · rw [decide_eq_true h, runChain_eq_followedBy, Meaning.followedBy, Meaning.followedBy,
      Meaning.provided_of_true h]
  · rw [decide_eq_false h, runChain_false, Meaning.followedBy, Meaning.provided_of_false h]
    rfl

theorem denote_ofSteps (left : AndOr) (rest : List (Operator × Text)) :
    CommandList.denote (.ofSteps left rest) = left.denote.followedBy (resume rest) := by
  fun_induction CommandList.ofSteps left rest with
  | case1 left => rfl
  | case2 left text rest ih =>
    rw [CommandList.denote, ih, AndOr.denote, resume_always]
  | case3 left text rest ih =>
    rw [ih, AndOr.denote, Meaning.followedBy_assoc, resume_provided Operator.onSuccess_allows]
  | case4 left text rest ih =>
    rw [ih, AndOr.denote, Meaning.followedBy_assoc, resume_provided Operator.onFailure_allows]

theorem runChain_eq_denote (shell : Shell) (chain : Chain) :
    shell.runChain true chain.first chain.rest =
      CommandList.denote (.ofChain chain) shell := by
  rw [CommandList.ofChain, denote_ofSteps, AndOr.denote, runChain_eq_followedBy]

end Shell

/-! ### Where a line ends

A line ends the session exactly if a wish to exit is pending behind its last executed command. -/

/-- The flow is what the wish to exit in the shell asks for. -/
def Settled (result : Flow × Shell) : Prop :=
  result.1 = .ofRequest result.2.session.exitRequest

theorem settled_skip {shell : Shell} (h : shell.session.exitRequest = none) :
    Settled (Meaning.skip shell) := by
  rw [Settled, Meaning.skip, h]
  rfl

theorem settled_followedBy {first second : Meaning} {shell : Shell} (hfirst : Settled (first shell))
    (hsecond : ∀ next : Shell, next.session.exitRequest = none → Settled (second next)) :
    Settled (first.followedBy second shell) := by
  rw [Meaning.followedBy]
  rcases hresult : first shell with ⟨_ | code, next⟩
  · apply hsecond
    rw [hresult, Settled] at hfirst
    cases hrequest : next.session.exitRequest with
    | none => rfl
    | some code => simp [hrequest, Flow.ofRequest] at hfirst
  · rwa [hresult] at hfirst

theorem settled_provided [Children] (condition : Status → Prop) [DecidablePred condition] (text : Text)
    {shell : Shell} (h : shell.session.exitRequest = none) :
    Settled (Meaning.provided condition (.ofCommand text) shell) := by
  by_cases hstatus : condition shell.session.status
  · rw [Meaning.provided_of_true hstatus]
    rfl
  · rw [Meaning.provided_of_false hstatus]
    exact settled_skip h

theorem AndOr.settled_denote [Children] (list : AndOr) (shell : Shell) : Settled (list.denote shell) := by
  induction list with
  | command text => rfl
  | onSuccess left text ih => exact settled_followedBy ih fun _ => settled_provided (· = 0) text
  | onFailure left text ih => exact settled_followedBy ih fun _ => settled_provided (· ≠ 0) text

theorem CommandList.settled_denote [Children] (lists : CommandList) {shell : Shell}
    (h : shell.session.exitRequest = none) : Settled (denote lists shell) := by
  induction lists generalizing shell with
  | nil => exact settled_skip h
  | cons list rest ih => exact settled_followedBy (list.settled_denote shell) fun _ => ih

/-- The first command of a line always runs, so a wish from before the line ends it too. -/
theorem CommandList.settled_denote_ofSteps [Children] (left : AndOr) (rest : List (Operator × Text)) (shell : Shell) :
    Settled (denote (ofSteps left rest) shell) := by
  fun_induction ofSteps left rest with
  | case1 left => exact settled_followedBy (left.settled_denote shell) fun _ => settled_skip
  | case2 left text rest ih =>
    exact settled_followedBy (left.settled_denote shell) fun _ => settled_denote _
  | case3 left text rest ih => exact ih
  | case4 left text rest ih => exact ih

/-! ### Lines -/

/-- The meaning of a raw line. One with a misplaced operator is told and nothing of it is run. -/
def Meaning.ofLine [Children] (raw : Text) : Meaning := fun shell =>
  let begun : Shell :=
    { shell with
      session :=
        { shell.session with
          counter := shell.session.counter + 1
          input := trimmedEnd Shell.isLineEnd raw } }
  match misplaced? (withoutComment raw) with
  | some error => (.proceed, begun.failedWith (.misplaced error))
  | none => CommandList.denote (.ofChain (.split (withoutComment raw))) begun

/-- Running a line computes its meaning. A rejected line leaves the number and the text of the line, the status 2 and one report behind and changes nothing else. An accepted one is read as a tree with the same commands and operators in the same order, and ends the session exactly if a wish to exit is pending behind it. -/
theorem Shell.runLine_eq_meaning [Children] (shell : Shell) (raw : Text) :
    shell.runLine raw = Meaning.ofLine raw shell ∧
      (∀ error, misplaced? (withoutComment raw) = some error →
        shell.runLine raw =
          (.proceed,
            { session :=
                { shell.session with
                  counter := shell.session.counter + 1
                  input := trimmedEnd isLineEnd raw
                  status := 2 }
              host := shell.host
              sink := shell.sink.add (.report
                { shell := shell.session.name
                  line := shell.session.counter + 1
                  error := .misplaced error
                  palette := shell.session.palette }) })) ∧
      (misplaced? (withoutComment raw) = none →
        CommandList.steps (.ofChain (.split (withoutComment raw))) =
            (.always, (Chain.split (withoutComment raw)).first) ::
              (Chain.split (withoutComment raw)).rest ∧
          Settled (shell.runLine raw)) := by
  have hmeaning : shell.runLine raw = Meaning.ofLine raw shell := by
    rw [runLine, Meaning.ofLine]
    cases misplaced? (withoutComment raw) with
    | none => exact runChain_eq_denote _ _
    | some error => rfl
  refine ⟨hmeaning, fun error herror => ?_, fun hnone => ⟨CommandList.steps_ofChain _, ?_⟩⟩
  · rw [hmeaning, Meaning.ofLine, herror]
    rfl
  · rw [hmeaning, Meaning.ofLine, hnone]
    exact CommandList.settled_denote_ofSteps _ _ _

open Children.Performing

theorem Shell.runLine_eq_meaning_exit :
    misplaced? (withoutComment "env ; ; env".toList) = some { token := [';'], position := 7 } ∧
      (bare.runLine "env ; ; env".toList).2.sink.events.length = 1 ∧
      misplaced? (withoutComment
        "unsetenv A && setenv B 1 || setenv C $? ; exit 7 || env ; env".toList) = none ∧
      bare.runLine "unsetenv A && setenv B 1 || setenv C $? ; exit 7 || env ; env".toList =
        Meaning.ofLine "unsetenv A && setenv B 1 || setenv C $? ; exit 7 || env ; env".toList bare ∧
      (bare.runLine "unsetenv A && setenv B 1 || setenv C $? ; exit 7 || env ; env".toList).1 =
        .stop 7 := by
  refine ⟨by decide, ?_, by decide, (runLine_eq_meaning bare _).1, ?_⟩
  · rw [(runLine_eq_meaning bare _).2.1 { token := [';'], position := 7 } (by decide)]
    rfl
  · rw [((runLine_eq_meaning bare _).2.2 (by decide)).2]
    decide

end CommandShell
