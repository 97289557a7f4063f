import CommandShell.Proofs.Evaluation.Change

/-!
# What commands leave alone

A command changes a session in four places only: its variables, its words, its status and its wish to exit. Who the shell is and which line it is at stay as they are, whatever the command is and however it ends.

The same is then true of the commands of a line one after the other, so within a line all reports carry the number of the line.
-/

namespace CommandShell

/-- The later session differs from the earlier one only where a command may change it. -/
def Session.Follows (later earlier : Session) : Prop :=
  later =
    { earlier with
      environment := later.environment
      argv := later.argv
      status := later.status
      exitRequest := later.exitRequest }

namespace Session.Follows

theorem refl (session : Session) : session.Follows session := rfl

theorem trans {first second third : Session} (hlater : third.Follows second)
    (hearlier : second.Follows first) : third.Follows first := by
  rw [Follows] at *
  rw [hlater, hearlier]

theorem counter {later earlier : Session} (h : later.Follows earlier) :
    later.counter = earlier.counter := by
  rw [h]

theorem input {later earlier : Session} (h : later.Follows earlier) :
    later.input = earlier.input := by
  rw [h]

end Session.Follows

/-- A session without arguments and variables on a host without files. -/
def Shell.bare : Shell :=
  { session := { args := [], environment := {}, processId := ['1'] } }

namespace Shell

theorem Change.follows {before later : Shell} (h : before.Change later) :
    later.session.Follows before.session := by
  cases h <;> rfl

theorem follows_of_changes {before later : Shell} (h : before.Changes later) :
    later.session.Follows before.session := by
  induction h with
  | refl => exact .refl _
  | tail _ hchange ih => exact hchange.follows.trans ih

theorem Settles.follows {before later : Shell} (h : before.Settles later) :
    later.session.Follows before.session := by
  cases h with
  | quiet hchanges => exact follows_of_changes hchanges
  | told hchanges error hstatus =>
    have hquiet := follows_of_changes hchanges
    exact hquiet

variable [Children]

theorem follows_runCommand (shell : Shell) (command : Text) :
    (shell.runCommand command).session.Follows shell.session := by
  rw [runCommand_eq_perform]
  exact (shell.settles_perform _).follows.trans rfl

/-- What is left to do behind a command: the next one may run if its operator allows it after the status of the moment. -/
def resume : List (Operator × Text) → Shell → Flow × Shell
  | [], shell => (.proceed, shell)
  | (operator, command) :: rest, shell =>
    shell.runChain (operator.allows shell.session.status) command rest

theorem runChain_false (shell : Shell) (command : Text) (rest : List (Operator × Text)) :
    shell.runChain false command rest = resume rest shell := by
  cases rest <;> rfl

theorem runChain_true (shell : Shell) (command : Text) (rest : List (Operator × Text)) :
    shell.runChain true command rest =
      match (shell.runCommand command).session.exitRequest with
      | some code => (.stop code, shell.runCommand command)
      | none => resume rest (shell.runCommand command) := by
  cases rest <;> rfl

theorem resume_append (left right : List (Operator × Text)) (shell : Shell) :
    resume (left ++ right) shell =
      match resume left shell with
      | (.stop code, next) => (.stop code, next)
      | (.proceed, next) => resume right next := by
  induction left generalizing shell with
  | nil => rfl
  | cons step left ih =>
    obtain ⟨operator, text⟩ := step
    rw [List.cons_append, resume, resume]
    cases operator.allows shell.session.status with
    | false => rw [runChain_false, runChain_false, ih]
    | true =>
      rw [runChain_true, runChain_true]
      cases (shell.runCommand text).session.exitRequest with
      | none => exact ih _
      | some code => rfl

theorem follows_resume (rest : List (Operator × Text)) (shell : Shell) :
    (resume rest shell).2.session.Follows shell.session := by
  induction rest generalizing shell with
  | nil => exact .refl _
  | cons step rest ih =>
    obtain ⟨operator, command⟩ := step
    rw [resume]
    cases operator.allows shell.session.status with
    | false =>
      rw [runChain_false]
      exact ih shell
    | true =>
      rw [runChain_true]
      split
      · exact shell.follows_runCommand command
      · exact (ih _).trans (shell.follows_runCommand command)

theorem follows_runChain (shell : Shell) (command : Text) (rest : List (Operator × Text)) :
    (shell.runChain true command rest).2.session.Follows shell.session :=
  -- The first command of a line runs like one behind a `;`.
  follows_resume ((.always, command) :: rest) shell

theorem follows_runLine (shell : Shell) (raw : Text) :
    (shell.runLine raw).2.session.Follows (shell.beginLine raw).session := by
  rw [runLine]
  split
  · exact (settles_conclude _ _).follows
  · exact follows_runChain _ _ _

@[simp]
theorem counter_runLine (shell : Shell) (raw : Text) :
    (shell.runLine raw).2.session.counter = shell.session.counter + 1 :=
  (shell.follows_runLine raw).counter

@[simp]
theorem input_runLine (shell : Shell) (raw : Text) :
    (shell.runLine raw).2.session.input = trimmedEnd isLineEnd raw :=
  (shell.follows_runLine raw).input

/-- The number of lines that are run before the session ends or there are no more of them. -/
def linesRun (shell : Shell) : List Text → Nat
  | [] => 0
  | line :: rest =>
    match shell.runLine line with
    | (.stop _, _) => 1
    | (.proceed, next) => next.linesRun rest + 1

theorem counter_runLines (shell : Shell) (lines : List Text) :
    (shell.runLines lines).2.session.counter = shell.session.counter + shell.linesRun lines := by
  induction lines generalizing shell with
  | nil => rfl
  | cons line lines ih =>
    have hcounter := shell.counter_runLine line
    rw [runLines, linesRun]
    rcases hline : shell.runLine line with ⟨_ | code, next⟩
    · rw [hline] at hcounter
      dsimp only at hcounter ⊢
      rw [ih, hcounter]
      omega
    · rw [hline] at hcounter
      exact hcounter

end Shell

end CommandShell
