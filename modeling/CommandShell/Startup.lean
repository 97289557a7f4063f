import CommandShell.Evaluation
import CommandShell.Input

/-!
# Startup files

An interactive shell first runs the lines of a startup file. It lies in the home directory and may be missing there, but one that was asked for by name must exist. Nothing is run of a file that cannot be read as text.
-/

namespace CommandShell

structure StartupFiles where
  rc : HostPath
  history : HostPath
  isRequired : Bool
  deriving DecidableEq, Repr

namespace StartupFiles

/-- The files for a home directory, with another startup file if one is asked for. -/
def ofHome (home : HostPath) (rc : Option Text) : StartupFiles :=
  { rc := (rc.map HostPath.ofText).getD (home.join ".hshrc".toList)
    history := home.join ".hsh_history".toList
    isRequired := rc.isSome }

def ofHost (host : Host) (rc : Option Text) : Except StartupError StartupFiles :=
  match host.home with
  | some home => .ok (ofHome home rc)
  | none => .error .noHome

end StartupFiles

namespace Shell

/-- Runs the startup file. -/
def source [Children] (shell : Shell) (files : StartupFiles) : Except StartupError Flow × Shell :=
  match shell.host.find? files.rc with
  | none => (if files.isRequired then .error (.notFound files.rc.shown) else .ok .proceed, shell)
  | some entry =>
    match Host.readText entry with
    | .error error => (.error (.file error), shell)
    | .ok t =>
      let (flow, next) := shell.runLines (textLines t)
      (.ok flow, next)

end Shell

end CommandShell
