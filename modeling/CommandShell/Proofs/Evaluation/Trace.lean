import CommandShell.Proofs.Evaluation.Frame

/-!
# Executed commands

Of the commands of a line some are skipped, none is executed behind one that finds a wish to exit, and none at all if the line is rejected. Here the commands that are executed are listed in their order, each together with the shell that it is executed in.

Such a list is a trace: each command starts with the variables and on the host that the one before it left behind, across the ends of lines too. So what is true of variables and host after any number of lines is shown for one executed command at a time.
-/

namespace CommandShell

/-- A command that is executed, and the shell that it is executed in. -/
structure Execution where
  before : Shell
  command : Text

namespace Execution

variable [Children]

def after (execution : Execution) : Shell :=
  execution.before.runCommand execution.command

/-- The words of the command as it is executed. -/
def argv (execution : Execution) : List Text :=
  words (execution.before.session.scope.expand execution.command)

/-- What the command that the words name answers, if there are words. -/
def answer? (execution : Execution) : Option (Except ShellError Status) :=
  match execution.argv with
  | [] => none
  | name :: arguments =>
    some ((execution.before.withArgv execution.argv).dispatch name arguments).1

theorem after_eq_perform (execution : Execution) :
    execution.after = execution.before.perform execution.argv :=
  execution.before.runCommand_eq_perform execution.command

theorem after_cons (execution : Execution) {name : Text} {arguments : List Text}
    (h : execution.argv = name :: arguments) :
    execution.after =
      ((execution.before.withArgv (name :: arguments)).dispatch name arguments).2.conclude
        ((execution.before.withArgv (name :: arguments)).dispatch name arguments).1 := by
  rw [after_eq_perform, h]
  rfl

theorem answer?_cons (execution : Execution) {name : Text} {arguments : List Text}
    (h : execution.argv = name :: arguments) :
    execution.answer? =
      some ((execution.before.withArgv (name :: arguments)).dispatch name arguments).1 := by
  rw [answer?, h]

end Execution

/-- What the commands of a session work on. -/
structure Surroundings where
  environment : Environment
  host : Host

/-- The commands of a chain with the operators in front of them. The first runs like one behind a `;`. -/
def Chain.steps (chain : Chain) : List (Operator × Text) :=
  (.always, chain.first) :: chain.rest

namespace Shell

def surroundings (shell : Shell) : Surroundings :=
  { environment := shell.session.environment, host := shell.host }

/-! ### The commands of one line -/

variable [Children]

/-- The commands that are executed of what is left of a line. -/
def executionsFrom : List (Operator × Text) → Shell → List Execution
  | [], _ => []
  | (operator, command) :: rest, shell =>
    if operator.allows shell.session.status then
      { before := shell, command } ::
        match (shell.runCommand command).session.exitRequest with
        | some _ => []
        | none => executionsFrom rest (shell.runCommand command)
    else
      executionsFrom rest shell

section Steps

variable {operator : Operator} {command : Text} {rest : List (Operator × Text)} {shell : Shell}

theorem resume_of_not_allows (h : operator.allows shell.session.status = false) :
    resume ((operator, command) :: rest) shell = resume rest shell := by
  rw [resume, h, runChain_false]

theorem resume_of_allows (h : operator.allows shell.session.status = true) :
    resume ((operator, command) :: rest) shell =
      match (shell.runCommand command).session.exitRequest with
      | some code => (.stop code, shell.runCommand command)
      | none => resume rest (shell.runCommand command) := by
  rw [resume, h]
  exact runChain_true shell command rest

theorem executionsFrom_of_not_allows (h : operator.allows shell.session.status = false) :
    executionsFrom ((operator, command) :: rest) shell = executionsFrom rest shell := by
  rw [executionsFrom, h, if_neg Bool.false_ne_true]

theorem executionsFrom_of_allows (h : operator.allows shell.session.status = true) :
    executionsFrom ((operator, command) :: rest) shell =
      { before := shell, command } ::
        match (shell.runCommand command).session.exitRequest with
        | some _ => []
        | none => executionsFrom rest (shell.runCommand command) := by
  rw [executionsFrom, if_pos h]

end Steps

/-- The commands that are executed of a line. -/
def executions (shell : Shell) (raw : Text) : List Execution :=
  match misplaced? (withoutComment raw) with
  | some _ => []
  | none => executionsFrom (Chain.split (withoutComment raw)).steps (shell.beginLine raw)

theorem runLine_of_accepted (shell : Shell) {raw : Text} (h : misplaced? (withoutComment raw) = none) :
    shell.runLine raw = resume (Chain.split (withoutComment raw)).steps (shell.beginLine raw) := by
  rw [runLine, h]
  rfl

theorem runLine_of_rejected (shell : Shell) {raw : Text} {error : Misplaced}
    (h : misplaced? (withoutComment raw) = some error) :
    shell.runLine raw = (.proceed, (shell.beginLine raw).conclude (.error (.misplaced error))) := by
  rw [runLine, h]

theorem executions_of_accepted (shell : Shell) {raw : Text}
    (h : misplaced? (withoutComment raw) = none) :
    shell.executions raw =
      executionsFrom (Chain.split (withoutComment raw)).steps (shell.beginLine raw) := by
  rw [executions, h]

theorem executions_of_rejected (shell : Shell) {raw : Text} {error : Misplaced}
    (h : misplaced? (withoutComment raw) = some error) : shell.executions raw = [] := by
  rw [executions, h]

/-- The shell behind executed commands. -/
def behind : Shell → List Execution → Shell
  | shell, [] => shell
  | _, execution :: rest => execution.after.behind rest

theorem behind_append (shell : Shell) (first second : List Execution) :
    shell.behind (first ++ second) = (shell.behind first).behind second := by
  induction first generalizing shell with
  | nil => rfl
  | cons execution first ih => exact ih execution.after

theorem resume_eq_behind (rest : List (Operator × Text)) (shell : Shell) :
    (resume rest shell).2 = shell.behind (executionsFrom rest shell) := by
  induction rest generalizing shell with
  | nil => rfl
  | cons step rest ih =>
    obtain ⟨operator, command⟩ := step
    cases hallows : operator.allows shell.session.status with
    | false =>
      rw [resume_of_not_allows hallows, executionsFrom_of_not_allows hallows]
      exact ih shell
    | true =>
      rw [resume_of_allows hallows, executionsFrom_of_allows hallows, behind, Execution.after]
      cases (shell.runCommand command).session.exitRequest with
      | some code => rfl
      | none => exact ih (shell.runCommand command)

/-! ### Traces -/

/-- Each command is executed in the surroundings that the one before it left behind. -/
def IsTrace : Shell → List Execution → Prop
  | _, [] => True
  | shell, execution :: rest =>
    execution.before.surroundings = shell.surroundings ∧ execution.after.IsTrace rest

theorem isTrace_append {shell : Shell} {first second : List Execution} :
    shell.IsTrace (first ++ second) ↔ shell.IsTrace first ∧ (shell.behind first).IsTrace second := by
  induction first generalizing shell with
  | nil => simp [IsTrace, behind]
  | cons execution first ih =>
    rw [List.cons_append, IsTrace, IsTrace, behind, ih, and_assoc]

theorem IsTrace.of_surroundings_eq {shell other : Shell} {trace : List Execution}
    (h : shell.IsTrace trace) (heq : shell.surroundings = other.surroundings) :
    other.IsTrace trace := by
  cases trace with
  | nil => exact trivial
  | cons execution rest => exact ⟨h.1.trans heq, h.2⟩

theorem surroundings_behind_congr {shell other : Shell} (heq : shell.surroundings = other.surroundings)
    (trace : List Execution) : (shell.behind trace).surroundings = (other.behind trace).surroundings := by
  cases trace with
  | nil => exact heq
  | cons execution rest => rfl

theorem isTrace_executionsFrom (rest : List (Operator × Text)) (shell : Shell) :
    shell.IsTrace (executionsFrom rest shell) := by
  induction rest generalizing shell with
  | nil => exact trivial
  | cons step rest ih =>
    obtain ⟨operator, command⟩ := step
    cases hallows : operator.allows shell.session.status with
    | false =>
      rw [executionsFrom_of_not_allows hallows]
      exact ih shell
    | true =>
      rw [executionsFrom_of_allows hallows]
      refine ⟨rfl, ?_⟩
      cases (shell.runCommand command).session.exitRequest with
      | some code => exact trivial
      | none => exact ih (shell.runCommand command)

theorem isTrace_executions (shell : Shell) (raw : Text) : shell.IsTrace (shell.executions raw) := by
  have hbegun : (shell.beginLine raw).surroundings = shell.surroundings := rfl
  cases hline : misplaced? (withoutComment raw) with
  | some error =>
    rw [shell.executions_of_rejected hline]
    exact trivial
  | none =>
    rw [shell.executions_of_accepted hline]
    exact (isTrace_executionsFrom _ _).of_surroundings_eq hbegun

theorem surroundings_runLine (shell : Shell) (raw : Text) :
    (shell.runLine raw).2.surroundings = (shell.behind (shell.executions raw)).surroundings := by
  have hbegun : (shell.beginLine raw).surroundings = shell.surroundings := rfl
  cases hline : misplaced? (withoutComment raw) with
  | some error =>
    rw [shell.runLine_of_rejected hline, shell.executions_of_rejected hline]
    rfl
  | none =>
    rw [shell.runLine_of_accepted hline, shell.executions_of_accepted hline, resume_eq_behind]
    exact surroundings_behind_congr hbegun _

/-! ### Any number of lines -/

/-- The shell after the lines, all of which are run. -/
def afterLines (shell : Shell) (lines : List Text) : Shell :=
  lines.foldl (fun shell raw => (shell.runLine raw).2) shell

/-- The commands that are executed of the lines. -/
def executionsOf (shell : Shell) : List Text → List Execution
  | [] => []
  | raw :: rest => shell.executions raw ++ (shell.runLine raw).2.executionsOf rest

theorem isTrace_executionsOf (shell : Shell) (lines : List Text) :
    shell.IsTrace (shell.executionsOf lines) ∧
      (shell.afterLines lines).surroundings = (shell.behind (shell.executionsOf lines)).surroundings := by
  induction lines generalizing shell with
  | nil => exact ⟨trivial, rfl⟩
  | cons raw rest ih =>
    have hline := shell.surroundings_runLine raw
    obtain ⟨htrace, hafter⟩ := ih (shell.runLine raw).2
    rw [executionsOf]
    constructor
    · rw [isTrace_append]
      exact ⟨shell.isTrace_executions raw, htrace.of_surroundings_eq hline⟩
    · rw [behind_append, ← surroundings_behind_congr hline]
      exact hafter

theorem executionsOf_append (shell : Shell) (first second : List Text) :
    shell.executionsOf (first ++ second) =
      shell.executionsOf first ++ (shell.afterLines first).executionsOf second := by
  induction first generalizing shell with
  | nil => rfl
  | cons raw first ih =>
    rw [List.cons_append, executionsOf, executionsOf, ih, List.append_assoc]
    rfl

/-- What no command of a trace breaks is true behind it. -/
theorem IsTrace.keeps (P : Surroundings → Prop) (allowed : Execution → Prop)
    (hstep : ∀ execution, allowed execution → P execution.before.surroundings →
      P execution.after.surroundings)
    {shell : Shell} {trace : List Execution} (h : shell.IsTrace trace)
    (hallowed : ∀ execution ∈ trace, allowed execution) (hstart : P shell.surroundings) :
    P (shell.behind trace).surroundings := by
  induction trace generalizing shell with
  | nil => exact hstart
  | cons execution rest ih =>
    rw [List.forall_mem_cons] at hallowed
    have hafter : P execution.after.surroundings := by
      apply hstep execution hallowed.1
      rw [h.1]
      exact hstart
    exact ih h.2 hallowed.2 hafter

end Shell

end CommandShell
