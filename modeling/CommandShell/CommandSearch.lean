import CommandShell.Host

/-!
# Finding commands

A command name with a `/` is a path. Any other name is looked up in the directories of the search path in order, where an empty entry stands for the working directory. The first executable file is the command; if there is none, the first thing of that name that is not a directory tells that the command exists but cannot be executed.
-/

namespace CommandShell

inductive Resolution where
  | executable (path : Text)
  | notExecutable (path : Text)
  | notFound
  deriving DecidableEq, Repr

def isColon (c : Char) : Bool :=
  c == ':'

/-- The path under which an entry of the search path is asked for a name. -/
def candidate (entry name : Text) : Text :=
  if entry.isEmpty then Path.join ['.'] name else Path.join entry name

def candidates (searchPath name : Text) : List Text :=
  (fields isColon searchPath).map fun entry => candidate entry name

namespace Host

/-- What a path is as a command, whatever search led to it. -/
def classify (host : Host) (path : Text) : Resolution :=
  match host.find? (.ofText path) with
  | some entry => if entry.isExecutable then .executable path else .notExecutable path
  | none => .notFound

/-- Tries the candidates in order, with the first that exists but is not executable so far. -/
def search (host : Host) (denied : Option Text) : List Text → Resolution
  | [] =>
    match denied with
    | some path => .notExecutable path
    | none => .notFound
  | path :: rest =>
    if host.isDirectory (.ofText path) then
      host.search denied rest
    else
      match host.classify path with
      | .executable path => .executable path
      | .notExecutable path => host.search (denied.or (some path)) rest
      | .notFound => host.search denied rest

def resolve (host : Host) (name : Text) (searchPath : Option Text) : Resolution :=
  if name.isEmpty then .notFound
  else if name.contains '/' then host.classify name
  else
    match searchPath with
    | some searchPath => host.search none (candidates searchPath name)
    | none => .notFound

end Host

end CommandShell
