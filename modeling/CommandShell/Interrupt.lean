import CommandShell.Process

/-!
# Interrupts

What can happen to a shell that minds interrupts: an interrupt comes, the shell asks for the note of it, a command is run, or the tree is changed from outside. An interrupt that comes while a child is running counts as one in front of the command, because nobody looks at the note before the child has ended.
-/

namespace CommandShell

inductive InterruptStep where
  | raise
  | take
  | run (argv : List Text) (environment : Environment)
  | change (tree : FileTree) (location : Location)
  deriving DecidableEq, Repr

inductive InterruptAnswer where
  | done
  | taken (wasRaised : Bool)
  | ran (writes : List ChildWrite) (result : Except ProcessError Status)

namespace Host

def interruptStep [Children] (host : Host) : InterruptStep → InterruptAnswer × Host
  | .raise => (.done, host.raiseInterrupt)
  | .take => (.taken host.takeInterrupt.1, host.takeInterrupt.2)
  | .run argv environment =>
    let ran := host.run argv environment
    (.ran ran.writes ran.result, ran.host)
  | .change tree location => (.done, { host with tree, location })

/-- The answers to the steps in order. -/
def interruptSteps [Children] (host : Host) : List InterruptStep → List InterruptAnswer
  | [] => []
  | step :: rest => (host.interruptStep step).1 :: (host.interruptStep step).2.interruptSteps rest

end Host

end CommandShell
