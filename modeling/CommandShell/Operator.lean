import CommandShell.Text.Basic

/-!
# Operators

Operators stand between the commands of a line. Each looks only at the status that is current when its turn comes, so a chain of operators is read from the left without precedence.
-/

namespace CommandShell

/-- What must hold for the next command of a line to run. -/
inductive Operator where
  | always
  | onSuccess
  | onFailure
  deriving DecidableEq, Repr

def isOperatorCharacter (c : Char) : Bool :=
  c == ';' || c == '&' || c == '|'

namespace Operator

def text : Operator → Text
  | always => [';']
  | onSuccess => ['&', '&']
  | onFailure => ['|', '|']

def ofText? (t : Text) : Option Operator :=
  [always, onSuccess, onFailure].find? fun operator => operator.text == t

/-- The next command runs after a command of this status. -/
def allows : Operator → Status → Bool
  | always, _ => true
  | onSuccess, status => status == 0
  | onFailure, status => status != 0

@[simp]
theorem ofText?_text (operator : Operator) : ofText? operator.text = some operator := by
  cases operator <;> rfl

end Operator

end CommandShell
