import CommandShell.Expansion
import CommandShell.Host
import CommandShell.Palette

/-!
# Sessions

A session is the state of one shell from its first line to its last. What becomes visible outside is a list of events in the order in which they happen: output of builtins, output of children, reports of errors, and notices about the way the shell was started. Output of builtins goes through a sink that may close after some number of bytes; the bytes that still fit are written even if the rest is lost.
-/

namespace CommandShell

/-- An error as a session tells it, with the name of the shell and the number of the line. -/
structure Report where
  shell : Text
  line : Nat
  error : ShellError
  palette : Palette := .plain
  deriving DecidableEq, Repr

def Report.text (report : Report) : Text :=
  report.palette.error
    (report.shell ++ ": ".toList ++ Text.decimalNat report.line ++ ": ".toList ++
      report.error.message)

inductive Event where
  | output (bytes : Bytes)
  | child (write : ChildWrite)
  | report (told : Report)
  | notice (t : Text)
  deriving DecidableEq, Repr

namespace Event

/-- The bytes that builtins write. -/
def outputBytes : Event → Bytes
  | output bytes => bytes
  | _ => []

/-- The bytes that children write to their standard output. -/
def childBytes : Event → Bytes
  | child (.output bytes) => bytes
  | _ => []

/-- The bytes that appear on standard error. -/
def errorBytes : Event → Bytes
  | child (.error bytes) => bytes
  | report told => (told.text ++ ['\n']).utf8
  | notice t => t.utf8
  | _ => []

/-- The bytes that appear on standard output. -/
def screenBytes (event : Event) : Bytes :=
  event.outputBytes ++ event.childBytes

end Event

/-- Where events go. With `room`, builtins can write only so many bytes more. The events are kept from the last to the first. -/
structure Sink where
  room : Option Nat := none
  reversed : List Event := []
  deriving DecidableEq, Repr

namespace Sink

/-- The events in the order in which they happened. -/
def events (sink : Sink) : List Event :=
  sink.reversed.reverse

def add (sink : Sink) (event : Event) : Sink :=
  { sink with reversed := event :: sink.reversed }

def addAll (sink : Sink) (events : List Event) : Sink :=
  events.foldl add sink

@[simp]
theorem events_add (sink : Sink) (event : Event) :
    (sink.add event).events = sink.events ++ [event] := by
  simp [events, add]

@[simp]
theorem events_addAll (sink : Sink) (events : List Event) :
    (sink.addAll events).events = sink.events ++ events := by
  rw [addAll]
  induction events generalizing sink with
  | nil => simp
  | cons event rest ih => simp [ih]

/-- Writes output of a builtin. If there is not room for all of it, what fits is written and the write fails. -/
def write (sink : Sink) (bytes : Bytes) : Except FileError Unit × Sink :=
  match sink.room with
  | none => (.ok (), sink.add (.output bytes))
  | some room =>
    if bytes.length ≤ room then
      (.ok (), { sink.add (.output bytes) with room := some (room - bytes.length) })
    else
      (.error .outputClosed, { sink.add (.output (bytes.take room)) with room := some 0 })

/-- Writes one text after the other up to the first that fails. -/
def writeAll (sink : Sink) : List Text → Except FileError Unit × Sink
  | [] => (.ok (), sink)
  | text :: rest =>
    match sink.write text.utf8 with
    | (.ok (), next) => next.writeAll rest
    | (.error error, next) => (.error error, next)

end Sink

structure Session where
  args : List Text
  environment : Environment
  processId : Text
  palette : Palette := .plain
  input : Text := []
  argv : List Text := []
  status : Status := 0
  counter : Nat := 0
  exitRequest : Option Status := none
  deriving DecidableEq, Repr

namespace Session

/-- The name under which the shell was started. -/
def name (session : Session) : Text :=
  session.args.head?.getD "hsh".toList

def scope (session : Session) : Scope :=
  { status := session.status
    processId := session.processId
    valueOf := session.environment.get? }

def report (session : Session) (error : ShellError) : Report :=
  { shell := session.name, line := session.counter, error, palette := session.palette }

end Session

/-- A session together with the host it works on and the sink of its events. -/
structure Shell where
  session : Session
  host : Host := {}
  sink : Sink := {}
  deriving DecidableEq, Repr

namespace Shell

def withStatus (shell : Shell) (status : Status) : Shell :=
  { shell with session := { shell.session with status } }

def withEnvironment (shell : Shell) (environment : Environment) : Shell :=
  { shell with session := { shell.session with environment } }

def requestExit (shell : Shell) (code : Status) : Shell :=
  { shell with session := { shell.session with exitRequest := some code } }

def report (shell : Shell) (error : ShellError) : Shell :=
  { shell with sink := shell.sink.add (.report (shell.session.report error)) }

/-- Writes texts to the sink. -/
def write (shell : Shell) (texts : List Text) : Except FileError Unit × Shell :=
  let (result, sink) := shell.sink.writeAll texts
  (result, { shell with sink })

end Shell

end CommandShell
