/-!
# The interrupt flag

An interrupt from the terminal reaches the shell as well as the child that is running. The shell only notes it, in a flag, and asking for the note clears it.
-/

namespace CommandShell

structure InterruptFlag where
  isRaised : Bool := false
  deriving DecidableEq, Repr

namespace InterruptFlag

def raise (_ : InterruptFlag) : InterruptFlag :=
  { isRaised := true }

/-- Whether the flag was raised, and the flag lowered. -/
def take (flag : InterruptFlag) : Bool × InterruptFlag :=
  (flag.isRaised, { isRaised := false })

end InterruptFlag

end CommandShell
