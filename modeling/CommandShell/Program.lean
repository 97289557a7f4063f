import CommandShell.Path

/-!
# Programs

A program is a list of actions that a child performs in order. It ends at the first action that exits or kills it, and exits with 0 behind the last one.
-/

namespace CommandShell

inductive Action where
  | print (text : Text)
  | printError (text : Text)
  | printArguments
  | printEnvironment
  | printDirectory
  | exit (code : Int)
  | signal (number : Nat)
  deriving DecidableEq, Repr

abbrev Program := List Action

/-- Signals are numbered from 1 to 64. Those that stop or continue a process, or report a child, an urgent socket or a resized window, do not end it, and a process cannot send itself 32 and 33, which are kept for its threads. -/
def endsProcess (signal : Nat) : Bool :=
  1 ≤ signal && signal ≤ 64 && !(17 ≤ signal && signal ≤ 23) &&
    !(signal == 28 || signal == 32 || signal == 33)

/-- How a child came to its end. A host tells an exit code in eight bits and a signal in seven. -/
inductive Ending where
  | exited (code : UInt8)
  | killed (signal : Fin 128)
  deriving DecidableEq, Repr

/-- The status that a shell records for a child: its exit code, or 128 and the number of the signal that killed it. -/
def Ending.status : Ending → Status
  | exited code => code.toNat
  | killed signal => 128 + signal.val

/-- A child as it starts: its arguments with its name first, its environment, and the path of its working directory if the host tells it. -/
structure Child where
  arguments : List Text
  environment : List (Text × Text)
  directory : Option HostPath
  deriving DecidableEq, Repr

/-- What a child writes, on its standard output or its standard error. -/
inductive ChildWrite where
  | output (bytes : Bytes)
  | error (bytes : Bytes)
  deriving DecidableEq, Repr

namespace Child

def argumentLines (child : Child) : Text :=
  child.arguments.flatMap fun argument => argument ++ ['\n']

def environmentLines (child : Child) : Text :=
  child.environment.flatMap fun entry => entry.1 ++ '=' :: entry.2 ++ ['\n']

def directoryLine (child : Child) : Bytes :=
  (child.directory.getD (.ofText ['?'])).bytes ++ [0x0A]

/-- Everything the child writes, in order, and how it ends. -/
def perform (child : Child) : Program → List ChildWrite × Ending
  | [] => ([], .exited 0)
  | action :: rest =>
    let (writes, ending) := child.perform rest
    match action with
    | .print text => (.output text.utf8 :: writes, ending)
    | .printError text => (.error text.utf8 :: writes, ending)
    | .printArguments => (.output child.argumentLines.utf8 :: writes, ending)
    | .printEnvironment => (.output child.environmentLines.utf8 :: writes, ending)
    | .printDirectory => (.output child.directoryLine :: writes, ending)
    | .exit code => ([], .exited (UInt8.ofNat (code % 256).toNat))
    | .signal number =>
      if endsProcess number then ([], .killed (Fin.ofNat 128 number)) else (writes, ending)

end Child

end CommandShell
