import CommandShell.Error

/-!
# Options of the command line

Options come first, then the positional arguments, which start behind `--` or at the first argument that is no option. An option that takes a value takes the next argument, whatever it looks like. Options given twice keep the last value, and what was read before a mistake stays read.
-/

namespace CommandShell

inductive Flag where
  | config
  | debug
  | help
  | quiet
  | version
  deriving DecidableEq, Repr

namespace Flag

/-- All flags in the order of their names. -/
def all : List Flag := [config, debug, help, quiet, version]

def name : Flag → Text
  | config => "config".toList
  | debug => "debug".toList
  | help => "help".toList
  | quiet => "quiet".toList
  | version => "version".toList

def short : Flag → Text
  | config => "-c".toList
  | debug => "-d".toList
  | help => "-h".toList
  | quiet => "-q".toList
  | version => "-v".toList

def long (flag : Flag) : Text :=
  "--".toList ++ flag.name

def description : Flag → Text
  | config => "Source this rc file instead of ~/.hshrc".toList
  | debug => "Enable debug output on stderr".toList
  | help => "Print this help message".toList
  | quiet => "Suppress warnings".toList
  | version => "Show version information".toList

def takesValue : Flag → Bool
  | config => true
  | _ => false

def isWritten (flag : Flag) (argument : Text) : Bool :=
  argument == flag.short || argument == flag.long

def ofArgument? (argument : Text) : Option Flag :=
  all.find? fun flag => flag.isWritten argument

def ofName? (name : Text) : Option Flag :=
  all.find? fun flag => flag.name == name

/-- The line of the usage text for the flag. -/
def usageLine (flag : Flag) : Text :=
  let long := if flag.takesValue then flag.long ++ " <PATH>".toList else flag.long
  "  ".toList ++ flag.short ++ ", ".toList ++ long.padded 17 ++ [' '] ++ flag.description ++ ['\n']

end Flag

def usage : Text :=
  "Usage: hsh [OPTIONS] [SCRIPT]\n\nOptions:\n".toList ++ Flag.all.flatMap Flag.usageLine

inductive OptionError where
  | illegal (argument : Text)
  | missingValue (argument : Text)
  deriving DecidableEq, Repr

namespace OptionError

def message : OptionError → Text
  | illegal argument => "Illegal option ".toList ++ argument
  | missingValue argument => "Flag ".toList ++ argument ++ " requires a value".toList

def shellError (error : OptionError) : ShellError :=
  .invocation error.message

end OptionError

structure Options where
  value? : Flag → Option Text := fun _ => none
  positionals : List Text := []

namespace Options

def isSet (options : Options) (flag : Flag) : Bool :=
  (options.value? flag).isSome

def set (options : Options) (flag : Flag) (value : Text) : Options :=
  { options with value? := fun other => if other = flag then some value else options.value? other }

def addPositionals (options : Options) (arguments : List Text) : Options :=
  { options with positionals := options.positionals ++ arguments }

/-- The value of a flag that takes none. -/
def given : Text := "true".toList

/-- Arguments that are not options: a lone `-`, and those that do not start with one. -/
def isPositional (argument : Text) : Bool :=
  argument.head? != some '-' || argument == ['-']

/-- Reads arguments on top of what was read before. -/
def parse (options : Options) : List Text → Option OptionError × Options
  | [] => (none, options)
  | argument :: rest =>
    if argument = ['-', '-'] then (none, options.addPositionals rest)
    else if isPositional argument then (none, options.addPositionals (argument :: rest))
    else
      match Flag.ofArgument? argument with
      | none => (some (.illegal argument), options)
      | some flag =>
        if flag.takesValue then
          match rest with
          | [] => (some (.missingValue argument), options)
          | value :: rest => (options.set flag value).parse rest
        else
          (options.set flag given).parse rest

end Options

end CommandShell
