import CommandShell.Text.Basic

/-!
# Failures of the host

Why a host refuses what it is asked for: a path that leads nowhere, a file that cannot be read or executed, arguments that cannot be handed over, and input or output that breaks off.
-/

namespace CommandShell

inductive FileError where
  | missing
  | denied
  | notDirectory
  | isDirectory
  | nameTooLong
  | tooManyLinks
  | unknownFormat
  | argumentsTooLong
  | nulInArgument
  | notText
  | cutCharacter
  | outputClosed
  | other (detail : Text)
  deriving DecidableEq, Repr

namespace FileError

def message : FileError → Text
  | missing => "No such file or directory (os error 2)".toList
  | denied => "Permission denied (os error 13)".toList
  | notDirectory => "Not a directory (os error 20)".toList
  | isDirectory => "Is a directory (os error 21)".toList
  | nameTooLong => "File name too long (os error 36)".toList
  | tooManyLinks => "Too many levels of symbolic links (os error 40)".toList
  | unknownFormat => "Exec format error (os error 8)".toList
  | argumentsTooLong => "Argument list too long (os error 7)".toList
  | nulInArgument => "nul byte found in provided data".toList
  | notText => "stream did not contain valid UTF-8".toList
  | cutCharacter => "a character was cut".toList
  | outputClosed => "output closed".toList
  | other detail => detail

end FileError

end CommandShell
