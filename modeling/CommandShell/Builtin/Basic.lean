import CommandShell.Session

/-!
# Builtins

The commands that the shell performs itself. A builtin answers with a status or an error; what it changed before an error stays changed.
-/

namespace CommandShell

inductive Builtin where
  | cd
  | env
  | exit
  | help
  | setenv
  | unsetenv
  deriving DecidableEq, Repr

namespace Builtin

/-- All builtins in the order of their names. -/
def all : List Builtin := [cd, env, exit, help, setenv, unsetenv]

def name : Builtin → Text
  | cd => "cd".toList
  | env => "env".toList
  | exit => "exit".toList
  | help => "help".toList
  | setenv => "setenv".toList
  | unsetenv => "unsetenv".toList

def ofName? (name : Text) : Option Builtin :=
  all.find? fun builtin => builtin.name == name

/-- The name and the arguments of a builtin as its help shows them. -/
def synopsis : Builtin → Text
  | cd => "cd [DIRECTORY]".toList
  | env => "env".toList
  | exit => "exit [STATUS]".toList
  | help => "help [COMMAND]".toList
  | setenv => "setenv VARIABLE VALUE".toList
  | unsetenv => "unsetenv VARIABLE".toList

/-- Writes the texts as the answer of a builtin, which succeeds if all of them are written. -/
def writeAnswer (shell : Shell) (texts : List Text) : Except BuiltinError Status × Shell :=
  match shell.write texts with
  | (.ok (), done) => (.ok 0, done)
  | (.error error, done) => (.error (.file error), done)

theorem mem_all (builtin : Builtin) : builtin ∈ all := by
  cases builtin <;> simp [all]

@[simp]
theorem ofName?_name (builtin : Builtin) : ofName? builtin.name = some builtin := by
  cases builtin <;> rfl

theorem name_of_ofName? {name : Text} {builtin : Builtin} (h : ofName? name = some builtin) :
    builtin.name = name := by
  rw [ofName?] at h
  have hfound := List.find?_some h
  exact beq_iff_eq.1 hfound

end Builtin

end CommandShell
