import CommandShell.Operator

/-!
# Chains of commands

A line is a first command and then operators, each with the command that follows it. Splitting takes operators from the left and takes `&&` and `||` as pairs; a single `&` or `|` is left in the command where it stands. No character is lost, so writing the chain gives back the line.
-/

namespace CommandShell

structure Chain where
  first : Text
  rest : List (Operator × Text)
  deriving DecidableEq, Repr

namespace Chain

/-- Puts a character in front of the first command. -/
def addCharacter (c : Char) (chain : Chain) : Chain :=
  { chain with first := c :: chain.first }

/-- Puts an empty command and an operator in front of the chain. -/
def addOperator (operator : Operator) (chain : Chain) : Chain :=
  { first := [], rest := (operator, chain.first) :: chain.rest }

def split : Text → Chain
  | [] => { first := [], rest := [] }
  | ';' :: rest => (split rest).addOperator .always
  | '&' :: '&' :: rest => (split rest).addOperator .onSuccess
  | '|' :: '|' :: rest => (split rest).addOperator .onFailure
  | c :: rest => (split rest).addCharacter c

def commands (chain : Chain) : List Text :=
  chain.first :: chain.rest.map Prod.snd

def operators (chain : Chain) : List Operator :=
  chain.rest.map Prod.fst

/-- Each command of a chain that goes on with `rest`, with the operator that follows it. -/
def pairsFrom (command : Text) : List (Operator × Text) → List (Text × Option Operator)
  | [] => [(command, none)]
  | (operator, next) :: rest => (command, some operator) :: pairsFrom next rest

def pairs (chain : Chain) : List (Text × Option Operator) :=
  pairsFrom chain.first chain.rest

def write (chain : Chain) : Text :=
  chain.first ++ chain.rest.flatMap fun step => step.1.text ++ step.2

@[simp]
theorem write_addCharacter (c : Char) (chain : Chain) :
    (chain.addCharacter c).write = c :: chain.write := rfl

@[simp]
theorem write_addOperator (operator : Operator) (chain : Chain) :
    (chain.addOperator operator).write = operator.text ++ chain.write := by
  simp [write, addOperator]

theorem write_split (line : Text) : (split line).write = line := by
  fun_induction split line with
  | case1 => rfl
  | case2 rest ih => simp [ih, Operator.text]
  | case3 rest ih => simp [ih, Operator.text]
  | case4 rest ih => simp [ih, Operator.text]
  | case5 c rest _ _ _ ih => simp [ih]

end Chain

end CommandShell
