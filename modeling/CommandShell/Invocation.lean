import CommandShell.Options
import CommandShell.Startup
import CommandShell.Terminal

/-!
# Invocations

One run of the program from its arguments to its exit code. Without positional arguments the shell reads its standard input, with a prompt if that is a terminal; one positional argument is a script, and more are a mistake. Only a shell at a terminal runs the startup file and paints its reports.

A shell does not end on an interrupt. It notes it, and drops the note behind each line that it reads, where it has nothing left to break off.
-/

namespace CommandShell

/-- What a run of the program is given. -/
structure Invocation where
  name : Text
  arguments : List Text
  environment : EnvironmentBlock
  host : Host
  input : Bytes
  isTerminal : Bool
  processId : Text

/-- What a run of the program leaves behind. -/
structure Outcome where
  code : Nat
  events : List Event
  deriving DecidableEq, Repr

namespace Outcome

/-- The bytes on standard output. -/
def output (outcome : Outcome) : Bytes :=
  outcome.events.flatMap Event.screenBytes

/-- The bytes on standard error. -/
def errors (outcome : Outcome) : Bytes :=
  outcome.events.flatMap Event.errorBytes

end Outcome

def version : Text := "hsh 0.1.0\n".toList

def prompt : Text := "$ ".toList

/-- The status of a shell that ends in the midst of its work. -/
def crashStatus : Status := 101

namespace Shell

/-- Prints text of the shell itself. -/
def print (shell : Shell) (t : Text) : Shell :=
  (shell.write [t]).2

/-- The outcome of a shell that ends with the status, of which the host passes on the lowest eight bits. -/
def outcome (shell : Shell) (status : Status) : Outcome :=
  { code := (status % 256).toNat, events := shell.sink.events }

/-- Ends with the status that the flow asks for, or else with the last one. -/
def finish : Flow × Shell → Outcome
  | (.stop code, shell) => shell.outcome code
  | (.proceed, shell) => shell.outcome shell.session.status

/-- Prompts for a line, if anyone is there to type it. -/
def showPrompt (shell : Shell) (prompt : Option Text) : Shell :=
  match prompt with
  | some t => shell.print t
  | none => shell

/-- The shell without the note of an interrupt. -/
def forgetInterrupt (shell : Shell) : Shell :=
  { shell with host := shell.host.takeInterrupt.2 }

/-- Performs what came of reading. An interrupt that was noted by the end of a line, or that broke off the line while it was typed, has had its effect. -/
def turn [Children] (shell : Shell) : Reading → Flow × Shell
  | .line raw => ((shell.runLine raw).1, (shell.runLine raw).2.forgetInterrupt)
  | .interrupted => (.proceed, shell.forgetInterrupt)

/-- Performs readings up to the first that ends the session, with a prompt before each and before the end. -/
def runReadings [Children] (shell : Shell) (prompt : Option Text) : List Reading → Flow × Shell
  | [] => (.proceed, shell.showPrompt prompt)
  | reading :: rest =>
    match (shell.showPrompt prompt).turn reading with
    | (.stop code, next) => (.stop code, next)
    | (.proceed, next) => next.runReadings prompt rest

/-- Runs what a stream delivers, up to its end or a failure. -/
def runStream [Children] (shell : Shell) (source : LineSource) : Flow × Shell :=
  shell.runReadings none source.readings

/-- Runs what a terminal delivers. The end of the input is answered with a newline. A failure is not, and the shell does not survive a character that was cut. -/
def runTerminal [Children] (shell : Shell) (source : LineSource) : Flow × Shell :=
  match shell.runReadings (some prompt) source.readings with
  | (.stop code, next) => (.stop code, next)
  | (.proceed, next) =>
    match source.failure with
    | none => (.proceed, next.print ['\n'])
    | some .cutCharacter => (.stop crashStatus, next)
    | some _ => (.proceed, next)

/-- Runs the startup file, then the terminal. -/
def runInteractive [Children] (shell : Shell) (rc : Option Text) (source : LineSource) : Flow × Shell :=
  match StartupFiles.ofHost shell.host rc with
  | .error _ => shell.runTerminal source
  | .ok files =>
    match shell.source files with
    | (.ok (.stop code), next) => (.stop code, next)
    | (.ok .proceed, next) => next.runTerminal source
    | (.error error, next) => (next.report (.startup error)).runTerminal source

end Shell

namespace Invocation

/-- The shell at the start of a run, which minds interrupts from then on. The host's own home stands in for one that the environment lacks. -/
def shell (invocation : Invocation) (positionals : List Text) (palette : Palette) : Shell :=
  { session :=
      { args := invocation.name :: positionals
        environment := invocation.environment.toEnvironment
        processId := invocation.processId
        palette }
    host :=
      { invocation.host with
        home := (invocation.environment.home?.map HostPath.mk).or invocation.host.home
        interrupt := some {} } }

/-- The outcome of a run that fails before its first line. -/
def failed (invocation : Invocation) (error : ShellError) : Outcome :=
  { code := error.status.toNat
    events := [.report { shell := invocation.name, line := 0, error }] }

/-- Runs the shell on the source that the arguments ask for. -/
def start [Children] (invocation : Invocation) (options : Options) : Outcome :=
  match options.positionals with
  | [] =>
    if invocation.isTerminal then
      let palette := Palette.ofEnvironment invocation.environment.text?
      Shell.finish <|
        (invocation.shell [] palette).runInteractive (options.value? .config)
          (.ofTerminal invocation.input)
    else
      Shell.finish <|
        (invocation.shell [] .plain).runStream (.ofStream invocation.input)
  | [script] =>
    let shell := invocation.shell [script] .plain
    match shell.host.openScript script with
    | .error error => invocation.failed error
    | .ok source => Shell.finish (shell.runStream source)
  | _ => invocation.failed (.invocation "too many arguments".toList)

def run [Children] (invocation : Invocation) : Outcome :=
  match Options.parse {} invocation.arguments with
  | (some error, _) =>
    let message := invocation.name ++ ": ".toList ++ error.message ++ ['\n']
    { code := 2, events := [.notice message, .notice usage] }
  | (none, options) =>
    if options.isSet .help then { code := 0, events := [.output usage.utf8] }
    else if options.isSet .version then { code := 0, events := [.output version.utf8] }
    else invocation.start options

end Invocation

end CommandShell
