import CommandShell.CommandSearch
import CommandShell.InterpreterLine

/-!
# Processes

Running an external command means finding it, loading what was found, starting a child and waiting for its end. A child is given its arguments as typed and the environment of the session in byte order of the names, unless they are more than a host hands over. What the child does then is not for the shell to know, so it is a parameter here: a child may write, change the tree, and end in any way, and waiting for it may fail.

A file of data is executable too. One with an interpreter line is run by its interpreter, which gets the path of the file as an argument and may itself be a file with an interpreter line. Any other is a script, which is left to the shell of the host.

An interrupt that was noted by the time a child has ended was meant for the child, so the note is dropped then. A command that fails before leaves it.
-/

namespace CommandShell

/-- What the host makes of an executable file: the program or the script that is run, and the strings that it is given in the place of the command's name. -/
structure Image where
  content : Content
  strings : List Bytes
  deriving DecidableEq, Repr

/-- The child as the program of the image sees it. -/
def Image.received (image : Image) (child : Child) : Child :=
  { child with arguments := image.strings.map Bytes.decoded ++ child.arguments.drop 1 }

/-- A child that is ready to run: what it is handed, and the image that it runs. -/
structure Launch where
  child : Child
  image : Image
  deriving DecidableEq, Repr

/-- What a child does: everything it writes, in order, the tree that it leaves behind with the place that the shell then works in, and what waiting for it tells. -/
structure Conduct where
  writes : List ChildWrite := []
  tree : FileTree
  location : Location
  waited : Except FileError Ending := .ok (.exited 0)

/-- What children do on a tree when they are started from a place in it. -/
class Children where
  conduct : FileTree → Location → Launch → Conduct

namespace Children

/-- Children that perform the actions of their program and leave the tree alone. A script is turned into a program by the shell of the host. -/
@[reducible]
def performing (script : Bytes → Program) : Children where
  conduct tree location launch :=
    let program := match launch.image.content with
      | .program actions => actions
      | .data bytes => script bytes
    let (writes, ending) := (launch.image.received launch.child).perform program
    { writes, tree, location, waited := .ok ending }

namespace Performing

/-- The children of examples, which run no scripts but empty ones. -/
scoped instance instPerforming : Children := performing fun _ => []

end Performing

end Children

/-- The number of bytes that a string handed to a child may have at most. -/
def longestString : Nat := 131071

/-- The number of bytes that all strings handed to a child may take at most. A string takes one byte more than it has, and a pointer to it. -/
def mostStringBytes : Nat := 2097152

/-- Strings of these sizes can be handed to the child as arguments, together with its variables and the path of its program. The pointers are counted before an interpreter adds arguments. -/
def Child.canReceive (child : Child) (path : Text) (arguments : List Nat) : Bool :=
  let sizes := arguments ++
    child.environment.map fun entry => entry.1.utf8Size + 1 + entry.2.utf8Size
  let pointers := child.arguments.length + child.environment.length
  sizes.all (fun size => size ≤ longestString) &&
    sizes.foldl (fun bytes size => bytes + size + 1) (path.utf8Size + 1) + 8 * pointers ≤ mostStringBytes

/-- The child can be handed its arguments and variables, together with the path of its program. -/
def Child.isHandedOver (child : Child) (path : Text) : Bool :=
  child.canReceive path (child.arguments.map Text.utf8Size)

/-- The number of interpreter lines that are followed one after the other at most. -/
def mostInterpreters : Nat := 5

/-- The shell that a host runs on files of an unknown format. -/
def hostShell : Text := "/bin/sh".toList

namespace Host

/-- What is in the file at the end of a path that is to be executed. -/
def openExecutable (host : Host) (path : HostPath) : Except FileError Content :=
  match host.tree.walkAnyPath host.location path with
  | .error error => .error error
  | .ok spot =>
    match spot.entry with
    | .file content rights => if rights.execute then .ok content else .error .denied
    | _ => .error .denied

/-- The image of a file with this path and content. The strings so far are replaced from the front by each interpreter, as long as there is room for them, and at most `interpreters` interpreters follow. -/
def loadContent (host : Host) (hasRoom : List Bytes → Bool) :
    Nat → HostPath → Content → List Bytes → Except FileError Image
  | _, _, .program actions, strings => .ok { content := .program actions, strings }
  | interpreters, path, .data bytes, strings =>
    match InterpreterLine.ofBytes? bytes with
    | none => .error .unknownFormat
    | some line =>
      let longer := line.path :: line.argument.toList ++ path.bytes :: strings.drop 1
      if !hasRoom longer then .error .argumentsTooLong
      else
        match host.openExecutable { bytes := line.path } with
        | .error error => .error error
        | .ok content =>
          match interpreters with
          | 0 => .error .tooManyLinks
          | interpreters + 1 =>
            host.loadContent hasRoom interpreters { bytes := line.path } content longer

/-- The image of a script, which the shell of the host runs. -/
def loadScript (child : Child) (path : Text) (content : Content) : Except FileError Image :=
  let image : Image := { content, strings := [hostShell.utf8, path.utf8] }
  if (image.received child).isHandedOver hostShell then .ok image else .error .argumentsTooLong

/-- The image of an executable file for a child. -/
def load (host : Host) (child : Child) (path : Text) : Except FileError Image :=
  let sizes := (child.arguments.drop 1).map Text.utf8Size
  let hasRoom := fun strings => child.canReceive path (strings.map List.length ++ sizes)
  match host.openExecutable (.ofText path) with
  | .error error => .error error
  | .ok content =>
    match host.loadContent hasRoom mostInterpreters (.ofText path) content
      ((child.arguments.take 1).map Text.utf8) with
    | .error .unknownFormat => loadScript child path content
    | loaded => loaded

/-- The error of a command that was found but did not start. -/
def startError (name : Text) : FileError → ProcessError
  | .missing => .notFound name
  | .denied => .denied name
  | error => .notSpawned name error

/-- Makes a command with this path ready to run. -/
def prepare (host : Host) (child : Child) (path : Text) : Except FileError Launch :=
  if child.arguments.any fun argument => argument.contains '\x00' then .error .nulInArgument
  else if !child.isHandedOver path then .error .argumentsTooLong
  else (host.load child path).map fun image => { child, image }

/-- Finds the command and makes it ready to run in the environment. -/
def launch (host : Host) (name : Text) (arguments : List Text) (environment : Environment) :
    Except ProcessError Launch :=
  match host.resolve name (environment.get? "PATH".toList) with
  | .notFound => .error (.notFound name)
  | .notExecutable _ => .error (.denied name)
  | .executable path =>
    let child : Child :=
      { arguments := name :: arguments
        environment := environment.forChild
        directory := host.workingDirectory.toOption }
    (host.prepare child path).mapError (startError name)

/-- What running an external command comes to: what its child writes, the status to record, and the host behind it. -/
structure Run where
  writes : List ChildWrite := []
  result : Except ProcessError Status
  host : Host

/-- Waits for a child. If that succeeds, an interrupt that was noted is dropped. -/
def await (host : Host) (name : Text) (conduct : Conduct) : Run :=
  let left := { host with tree := conduct.tree, location := conduct.location }
  match conduct.waited with
  | .error error =>
    { writes := conduct.writes, result := .error (.notSpawned name error), host := left }
  | .ok ending =>
    { writes := conduct.writes, result := .ok ending.status, host := left.takeInterrupt.2 }

/-- Runs an external command to its end. -/
def run [Children] (host : Host) (argv : List Text) (environment : Environment) : Run :=
  match argv with
  | [] => { result := .ok 0, host }
  | name :: arguments =>
    match host.launch name arguments environment with
    | .error error => { result := .error error, host }
    | .ok launch => host.await name (Children.conduct host.tree host.location launch)

end Host

end CommandShell
