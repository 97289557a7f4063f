import CommandShell.Builtin.Basic

/-!
# Changing the directory

`cd` moves to a directory and notes in `OLDPWD` where it came from and in `PWD` where it is, in this order. Where it came from is what `PWD` said before; only a session without `PWD` asks the host. `cd -` moves to `OLDPWD` and prints where that is. Variables hold text, so of a path that is none they get what is shown of it.

The host is asked for the new directory behind the move. If it does not tell it, `cd` fails there, and the session has moved without a note of it.
-/

namespace CommandShell

namespace Builtin

/-- The directory that an argument of `cd` asks for. -/
def directoryFor (shell : Shell) : Option Text → Except BuiltinError HostPath
  | none | some ['~'] | some ['-', '-'] =>
    match shell.host.homeDirectory? (shell.session.environment.get? "HOME".toList) with
    | some directory => .ok directory
    | none => .error (.failed ShellError.noHome.message)
  | some ['-'] =>
    match shell.session.environment.get? "OLDPWD".toList with
    | some directory => .ok (.ofText directory)
    | none => shell.host.workingDirectory.mapError .file
  | some path =>
    match shell.host.expandTilde? (shell.session.environment.get? "HOME".toList) path with
    | some directory => .ok directory
    | none => .error (.failed ShellError.noHome.message)

/-- The directory that `cd` leaves, as the session knows it. -/
def leftDirectory (shell : Shell) : Except BuiltinError Text :=
  match shell.session.environment.get? "PWD".toList with
  | some directory => .ok directory
  | none => (shell.host.workingDirectory.map HostPath.shown).mapError .file

/-- The environment after a move. -/
def noteMove (environment : Environment) (left entered : Text) : Except VariableError Environment := do
  let noted ← environment.set "OLDPWD".toList left
  noted.set "PWD".toList entered

/-- Moves the host, notes the move and prints the new directory if asked to. -/
def move (shell : Shell) (target : HostPath) (shown left : Text) (isPrinted : Bool) :
    Except BuiltinError Status × Shell :=
  match shell.host.enter? target with
  | none => (.error (.cannotEnter shown), shell)
  | some host =>
    let moved := { shell with host }
    match host.workingDirectory with
    | .error error => (.error (.file error), moved)
    | .ok entered =>
      match noteMove shell.session.environment left entered.shown with
      | .error error => (.error (.environment error), moved)
      | .ok environment =>
        let noted := moved.withEnvironment environment
        if isPrinted then writeAnswer noted [entered.shown ++ ['\n']] else (.ok 0, noted)

def runCd (shell : Shell) (arguments : List Text) : Except BuiltinError Status × Shell :=
  match arguments with
  | _ :: _ :: _ => (.error .tooManyArguments, shell)
  | _ =>
    let argument := arguments.head?
    match directoryFor shell argument with
    | .error error => (.error error, shell)
    | .ok target =>
      match leftDirectory shell with
      | .error error => (.error error, shell)
      | .ok left => move shell target (argument.getD target.shown) left (argument == some ['-'])

end Builtin

end CommandShell
