import CommandShell.Proofs.Evaluation.Frame
import CommandShell.Startup

/-!
# Invariants of a session

A property that no small change and no report can break, nor the beginning of a line or of a command, is an invariant: it is kept by every command, so by every line and every startup file, and by any number of these.
-/

namespace CommandShell

namespace Shell

structure IsInvariant (P : Shell → Prop) : Prop where
  change : ∀ {before later : Shell}, before.Change later → P before → P later
  report : ∀ (shell : Shell) (error : ShellError), P shell → P (shell.report error)
  withArgv : ∀ (shell : Shell) (argv : List Text), P shell → P (shell.withArgv argv)
  beginLine : ∀ (shell : Shell) (raw : Text), P shell → P (shell.beginLine raw)

namespace IsInvariant

variable {P : Shell → Prop} (hP : IsInvariant P)
include hP

theorem changes {before later : Shell} (h : before.Changes later) (hbefore : P before) : P later := by
  induction h with
  | refl => exact hbefore
  | tail _ hchange ih => exact hP.change hchange ih

theorem settles {before later : Shell} (h : before.Settles later) (hbefore : P before) : P later := by
  cases h with
  | quiet hchanges => exact hP.changes hchanges hbefore
  | told hchanges error _ => exact hP.report _ error (hP.changes hchanges hbefore)

variable [Children]

theorem runCommand {shell : Shell} (h : P shell) (command : Text) : P (shell.runCommand command) := by
  rw [runCommand_eq_perform]
  exact hP.settles (shell.settles_perform _) (hP.withArgv shell _ h)

theorem resume (rest : List (Operator × Text)) {shell : Shell} (h : P shell) :
    P (Shell.resume rest shell).2 := by
  induction rest generalizing shell with
  | nil => exact h
  | cons step rest ih =>
    obtain ⟨operator, command⟩ := step
    rw [Shell.resume]
    cases operator.allows shell.session.status with
    | false =>
      rw [runChain_false]
      exact ih h
    | true =>
      have hcommand := hP.runCommand h command
      rw [runChain_true]
      split
      · exact hcommand
      · exact ih hcommand

theorem runLine {shell : Shell} (h : P shell) (raw : Text) : P (shell.runLine raw).2 := by
  have hbegin : P (shell.beginLine raw) := hP.beginLine shell raw h
  rw [Shell.runLine]
  split
  · exact hP.settles (settles_conclude _ _) hbegin
  · exact hP.resume ((.always, _) :: _) hbegin

theorem runLines {shell : Shell} (h : P shell) (lines : List Text) : P (shell.runLines lines).2 := by
  induction lines generalizing shell with
  | nil => exact h
  | cons line rest ih =>
    have hline := hP.runLine h line
    rw [Shell.runLines]
    rcases hresult : shell.runLine line with ⟨_ | code, next⟩
    · rw [hresult] at hline
      exact ih hline
    · rw [hresult] at hline
      exact hline

theorem source {shell : Shell} (h : P shell) (files : StartupFiles) : P (shell.source files).2 := by
  rw [Shell.source]
  split
  · exact h
  · split
    · exact h
    · exact hP.runLines h _

end IsInvariant

/-- Shells that lines and startup files lead to, in any number and order, on a host that may change in between as its events may be taken away. -/
inductive Reaches [Children] (start : Shell) : Shell → Prop
  | refl : Reaches start start
  | line {shell : Shell} (h : Reaches start shell) (raw : Text) : Reaches start (shell.runLine raw).2
  | source {shell : Shell} (h : Reaches start shell) (files : StartupFiles) :
    Reaches start (shell.source files).2
  | elsewhere {shell : Shell} (h : Reaches start shell) (host : Host) (sink : Sink) :
    Reaches start { shell with host, sink }

theorem IsInvariant.reaches [Children] {P : Session → Prop} (hP : IsInvariant fun shell => P shell.session)
    {start later : Shell} (h : start.Reaches later) (hstart : P start.session) : P later.session := by
  induction h with
  | refl => exact hstart
  | line _ raw ih => exact hP.runLine ih raw
  | source _ files ih => exact hP.source ih files
  | elsewhere _ host sink ih => exact ih

end Shell

end CommandShell
