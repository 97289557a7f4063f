import CommandShell.FileError
import CommandShell.Line.Check
import CommandShell.Environment

/-!
# Errors

Everything that can go wrong, by cause, with the message that is shown for it and the status that it leaves behind. A mistake in the use of a command leaves 2, a command that is not found 127, one that may not be executed 126, and every other failure 1.
-/

namespace CommandShell

/-- A failed builtin. -/
inductive BuiltinError where
  | badArguments (detail : Text)
  | failed (detail : Text)
  | environment (error : VariableError)
  | file (error : FileError)
  deriving DecidableEq, Repr

namespace BuiltinError

def tooManyArguments : BuiltinError := .badArguments "too many arguments".toList

def usage (synopsis : Text) : BuiltinError := .badArguments ("usage: ".toList ++ synopsis)

def illegalNumber (word : Text) : BuiltinError := .badArguments ("Illegal number: ".toList ++ word)

def noHelp (topic : Text) : BuiltinError :=
  .badArguments ("no help topics match `".toList ++ topic ++ "'".toList)

def cannotEnter (directory : Text) : BuiltinError := .failed ("can't cd to ".toList ++ directory)

def message : BuiltinError → Text
  | badArguments detail => detail
  | failed detail => detail
  | environment error => error.message
  | file error => error.message

def status : BuiltinError → Status
  | file _ => 1
  | _ => 2

end BuiltinError

/-- An external command that did not run to its end. -/
inductive ProcessError where
  | notFound (command : Text)
  | denied (command : Text)
  | notSpawned (command : Text) (error : FileError)
  | signal (error : FileError)
  deriving DecidableEq, Repr

namespace ProcessError

def message : ProcessError → Text
  | notFound command => command ++ ": not found".toList
  | denied command => command ++ ": Permission denied".toList
  | notSpawned command error => command ++ ": ".toList ++ error.message
  | signal error => "signal error: ".toList ++ error.message

def status : ProcessError → Status
  | notFound _ => 127
  | denied _ => 126
  | notSpawned _ _ => 1
  | signal _ => 1

end ProcessError

/-- A startup file that was not read. -/
inductive StartupError where
  | noHome
  | notFound (path : Text)
  | file (error : FileError)
  deriving DecidableEq, Repr

namespace StartupError

def message : StartupError → Text
  | noHome => "Home directory not found".toList
  | notFound path => "Config file not found: ".toList ++ path
  | file error => "IO error: ".toList ++ error.message

end StartupError

/-- Why a terminal delivers no line. -/
inductive TerminalError where
  | endOfInput
  | interrupted
  deriving DecidableEq, Repr

namespace TerminalError

def message : TerminalError → Text
  | endOfInput => "EOF".toList
  | interrupted => "Interrupted".toList

end TerminalError

inductive ShellError where
  | terminal (error : TerminalError)
  | file (error : FileError)
  | noHome
  | misplaced (error : Misplaced)
  | builtin (command : Text) (error : BuiltinError)
  | process (error : ProcessError)
  | startup (error : StartupError)
  | invocation (detail : Text)
  | scriptOpen (path : Text)
  deriving DecidableEq, Repr

def Misplaced.message (error : Misplaced) : Text :=
  "Syntax error: \"".toList ++ error.token ++ "\" unexpected".toList

namespace ShellError

def message : ShellError → Text
  | terminal error => "Readline error: ".toList ++ error.message
  | file error => "IO error: ".toList ++ error.message
  | noHome => "Home directory not found".toList
  | misplaced error => error.message
  | builtin command error => command ++ ": ".toList ++ error.message
  | process error => error.message
  | startup error => "Config error: ".toList ++ error.message
  | invocation detail => detail
  | scriptOpen path => "Can't open ".toList ++ path

def status : ShellError → Status
  | misplaced _ => 2
  | builtin _ error => error.status
  | process error => error.status
  | invocation _ => 2
  | scriptOpen _ => 127
  | _ => 1

end ShellError

end CommandShell
