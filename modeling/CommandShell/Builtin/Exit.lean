import CommandShell.Builtin.Basic

/-!
# Leaving the shell

`exit` asks for the end of the session with a status: the last one, or a decimal number that is taken modulo 256. Numbers beyond the largest signed number of 32 bits are refused like anything that is no number.
-/

namespace CommandShell

namespace Builtin

/-- The largest number that `exit` accepts. -/
def largestStatus : Nat := 2147483647

def exitStatus? (word : Text) : Option Status :=
  if word.isEmpty || !word.all Text.isDigit then none
  else (Text.valueUpTo? largestStatus word).map fun number => ((number % 256 : Nat) : Status)

def runExit (shell : Shell) (arguments : List Text) : Except BuiltinError Status × Shell :=
  match arguments.head? with
  | none => (.ok shell.session.status, shell.requestExit shell.session.status)
  | some word =>
    match exitStatus? word with
    | some status => (.ok status, shell.requestExit status)
    | none => (.error (.illegalNumber word), shell)

end Builtin

end CommandShell
