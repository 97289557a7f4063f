import CommandShell.Builtin.Basic

/-!
# Help

`help` lists the builtins, or describes those that its arguments name, up to the first that is none.
-/

namespace CommandShell

namespace Builtin

/-- What the builtin does, a line for each sentence. -/
def description : Builtin → List Text
  | cd =>
    ["Change the current directory to DIRECTORY.",
      "Without an argument, or with `~` or `--`, change to $HOME.",
      "`cd -` changes to $OLDPWD and prints it.",
      "PWD and OLDPWD are updated on success."].map String.toList
  | env => ["Print every environment variable as NAME=VALUE.".toList]
  | exit =>
    ["Exit the shell with STATUS modulo 256.",
      "Without STATUS, the status of the last command is used."].map String.toList
  | help =>
    ["Display information about builtin commands.",
      "With COMMAND, describe that command only."].map String.toList
  | setenv => ["Set VARIABLE to VALUE, adding it if it does not exist.".toList]
  | unsetenv => ["Remove VARIABLE from the environment.".toList]

/-- The help text of one builtin. -/
def topic (builtin : Builtin) : Text :=
  builtin.name ++ ": ".toList ++ builtin.synopsis ++ ['\n'] ++
    builtin.description.flatMap fun line => "    ".toList ++ line ++ ['\n']

/-- The help text that lists all builtins. -/
def overview : Text :=
  "These shell commands are defined internally. Type `help NAME` to find out\n".toList ++
    "more about the command NAME.\n\n".toList ++
    all.flatMap fun builtin => "  ".toList ++ builtin.synopsis ++ ['\n']

/-- Writes the help texts of the builtins in order. -/
def runTopics (shell : Shell) : List Text → Except BuiltinError Status × Shell
  | [] => (.ok 0, shell)
  | name :: rest =>
    match ofName? name with
    | none => (.error (.noHelp name), shell)
    | some builtin =>
      match writeAnswer shell [builtin.topic] with
      | (.ok _, next) => runTopics next rest
      | (.error error, next) => (.error error, next)

def runHelp (shell : Shell) (arguments : List Text) : Except BuiltinError Status × Shell :=
  if arguments.isEmpty then writeAnswer shell [overview] else runTopics shell arguments

end Builtin

end CommandShell
