import CommandShell.Builtin.Basic

/-!
# Listing and changing variables
-/

namespace CommandShell

namespace Builtin

/-- Lists the variables, a line for each. -/
def runEnv (shell : Shell) (arguments : List Text) : Except BuiltinError Status × Shell :=
  if arguments.isEmpty then writeAnswer shell shell.session.environment.listing
  else (.error (.usage env.synopsis), shell)

def runSetenv (shell : Shell) : List Text → Except BuiltinError Status × Shell
  | [name, value] =>
    match shell.session.environment.set name value with
    | .ok environment => (.ok 0, shell.withEnvironment environment)
    | .error error => (.error (.environment error), shell)
  | _ => (.error (.usage setenv.synopsis), shell)

def runUnsetenv (shell : Shell) : List Text → Except BuiltinError Status × Shell
  | [name] =>
    match shell.session.environment.erase name with
    | .ok environment => (.ok 0, shell.withEnvironment environment)
    | .error error => (.error (.environment error), shell)
  | _ => (.error (.usage unsetenv.synopsis), shell)

end Builtin

end CommandShell
