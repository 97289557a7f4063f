import CommandShell.Text.Order

/-!
# Environments

An environment is an ordered list of variables, which are names with values. Setting a name that is present replaces its value in place, a new name goes to the end, and removal keeps the order of the rest. Names are not empty and hold neither `=` nor NUL, values hold no NUL: what is refused here could not be handed to a child.
-/

namespace CommandShell

/-- Gives the first entry of that key the value, or adds an entry at the end. -/
def assign {α β : Type} [DecidableEq α] (key : α) (value : β) : List (α × β) → List (α × β)
  | [] => [(key, value)]
  | entry :: rest =>
    if entry.1 = key then (entry.1, value) :: rest else entry :: assign key value rest

inductive VariableError where
  | invalidName (name : Text)
  | invalidValue
  | notSet (name : Text)
  deriving DecidableEq, Repr

namespace VariableError

def message : VariableError → Text
  | invalidName name => "invalid variable name: ".toList ++ name
  | invalidValue => "invalid value: NUL byte in value".toList
  | notSet name => name ++ ": not set".toList

end VariableError

structure Environment where
  entries : List (Text × Text) := []
  deriving DecidableEq, Repr

namespace Environment

def nul : Char := '\x00'

def isValidName (name : Text) : Bool :=
  !name.isEmpty && !name.contains '=' && !name.contains nul

def isValidValue (value : Text) : Bool :=
  !value.contains nul

def get? (environment : Environment) (name : Text) : Option Text :=
  environment.entries.lookup name

/-- A bad name is found before a bad value. -/
def set (environment : Environment) (name value : Text) : Except VariableError Environment :=
  if !isValidName name then .error (.invalidName name)
  else if !isValidValue value then .error .invalidValue
  else .ok { entries := assign name value environment.entries }

def erase (environment : Environment) (name : Text) : Except VariableError Environment :=
  match environment.get? name with
  | some _ => .ok { entries := environment.entries.eraseP fun entry => entry.1 == name }
  | none => .error (.notSet name)

/-- Sets the variable, or leaves all as it is if it cannot be set. -/
def setIfValid (environment : Environment) (entry : Text × Text) : Environment :=
  match environment.set entry.1 entry.2 with
  | .ok next => next
  | .error _ => environment

/-- The variables set in order. Entries that cannot be set are left out. -/
def ofList (entries : List (Text × Text)) : Environment :=
  entries.foldl setIfValid {}

/-- The lines that list the variables in order. -/
def listing (environment : Environment) : List Text :=
  environment.entries.map fun entry => entry.1 ++ '=' :: entry.2 ++ ['\n']

/-- The environment of a child: the entries in the byte order of their names. -/
def forChild (environment : Environment) : List (Text × Text) :=
  sortedBy (fun entry => entry.1.utf8) environment.entries

theorem forChild_perm (environment : Environment) :
    environment.forChild.Perm environment.entries :=
  sortedBy_perm _ _

end Environment

/-- The environment that a process is started with, as the bytes it receives. -/
abbrev EnvironmentBlock := List (Bytes × Bytes)

namespace EnvironmentBlock

/-- The block after setting the names in order. -/
def ofList (entries : List (Bytes × Bytes)) : EnvironmentBlock :=
  entries.foldl (fun block entry => assign entry.1 entry.2 block) []

/-- The name and the value in a string of the form `NAME=VALUE`. The name ends before the first `=` that is not the first byte. -/
def cut? : Bytes → Option (Bytes × Bytes)
  | [] => none
  | b :: rest =>
    match rest.dropWhile fun b => b != 0x3D with
    | [] => none
    | _ :: value => some (b :: rest.takeWhile fun b => b != 0x3D, value)

/-- What a process receives that is started with the block: strings in the byte order of the names, which it cuts again. -/
def received (block : EnvironmentBlock) : EnvironmentBlock :=
  (sortedBy Prod.fst block).filterMap fun entry => cut? (entry.1 ++ 0x3D :: entry.2)

/-- The environment of a process that received the block. Bytes that are no text are replaced, which may make two names one; of two values the later one counts. -/
def toEnvironment (block : EnvironmentBlock) : Environment :=
  Environment.ofList (block.map fun entry => (entry.1.decoded, entry.2.decoded))

/-- The first value of a name, if it is text. -/
def text? (block : EnvironmentBlock) (name : Text) : Option Text :=
  (block.lookup name.utf8).bind Bytes.text?

/-- The home directory of a process that received the block. -/
def home? (block : EnvironmentBlock) : Option Bytes :=
  (block.lookup (Text.utf8 "HOME".toList)).filter fun home => !home.isEmpty

end EnvironmentBlock

end CommandShell
