import CommandShell.Builtin.Directory
import CommandShell.Builtin.Environment
import CommandShell.Builtin.Exit
import CommandShell.Builtin.Help
import CommandShell.Line.Chain
import CommandShell.Line.Comment
import CommandShell.Process

/-!
# Evaluating lines

A line is stripped of its comment, checked, and split into a chain of commands. Each command that its operator lets run is expanded, cut into words and performed, by a builtin of that name or else by a child. Words come from the expanded text, so a value may become several words or none, but never an operator: lines are split before they are expanded.

A command that asked for the end of the session, or finds such a wish from before, ends the line.
-/

namespace CommandShell

namespace Builtin

def run (builtin : Builtin) (shell : Shell) (arguments : List Text) :
    Except BuiltinError Status × Shell :=
  match builtin with
  | cd => runCd shell arguments
  | env => runEnv shell arguments
  | exit => runExit shell arguments
  | help => runHelp shell arguments
  | setenv => runSetenv shell arguments
  | unsetenv => runUnsetenv shell arguments

end Builtin

/-- Whether to go on with the next line. -/
inductive Flow where
  | proceed
  | stop (code : Status)
  deriving DecidableEq, Repr

namespace Shell

variable [Children]

/-- Runs an external command. -/
def runExternal (shell : Shell) (argv : List Text) : Except ProcessError Status × Shell :=
  let ran := shell.host.run argv shell.session.environment
  (ran.result, { shell with host := ran.host, sink := shell.sink.addAll (ran.writes.map .child) })

/-- Performs the words of a command. -/
def dispatch (shell : Shell) (name : Text) (arguments : List Text) :
    Except ShellError Status × Shell :=
  match Builtin.ofName? name with
  | some builtin =>
    let (result, next) := builtin.run shell arguments
    (result.mapError (.builtin builtin.name), next)
  | none =>
    let (result, next) := shell.runExternal (name :: arguments)
    (result.mapError .process, next)

/-- Records the outcome of a command: its status, or the error with its status. -/
def conclude (shell : Shell) : Except ShellError Status → Shell
  | .ok status => shell.withStatus status
  | .error error => (shell.withStatus error.status).report error

/-- Runs one command of a line. A command without words only clears the words of the one before. -/
def runCommand (shell : Shell) (command : Text) : Shell :=
  let argv := words (shell.session.scope.expand command)
  let ready := { shell with session := { shell.session with argv } }
  match argv with
  | [] => ready
  | name :: arguments =>
    let (result, next) := ready.dispatch name arguments
    next.conclude result

/-- Runs a command, if it may run, and then what follows it on the line. -/
def runChain (shell : Shell) (mayRun : Bool) (command : Text) :
    List (Operator × Text) → Flow × Shell
  | [] =>
    if mayRun then
      let next := shell.runCommand command
      match next.session.exitRequest with
      | some code => (.stop code, next)
      | none => (.proceed, next)
    else
      (.proceed, shell)
  | (operator, following) :: rest =>
    if mayRun then
      let next := shell.runCommand command
      match next.session.exitRequest with
      | some code => (.stop code, next)
      | none => next.runChain (operator.allows next.session.status) following rest
    else
      shell.runChain (operator.allows shell.session.status) following rest

def isLineEnd (c : Char) : Bool :=
  c == '\n' || c == '\r'

/-- Counts the line and keeps its text. -/
def beginLine (shell : Shell) (raw : Text) : Shell :=
  { shell with
    session :=
      { shell.session with
        counter := shell.session.counter + 1
        input := trimmedEnd isLineEnd raw } }

def runLine (shell : Shell) (raw : Text) : Flow × Shell :=
  let begun := shell.beginLine raw
  let line := withoutComment raw
  match misplaced? line with
  | some error => (.proceed, begun.conclude (.error (.misplaced error)))
  | none =>
    let chain := Chain.split line
    begun.runChain true chain.first chain.rest

/-- Runs lines in order up to the first that ends the session. -/
def runLines (shell : Shell) : List Text → Flow × Shell
  | [] => (.proceed, shell)
  | line :: rest =>
    match shell.runLine line with
    | (.stop code, next) => (.stop code, next)
    | (.proceed, next) => next.runLines rest

end Shell

end CommandShell
