import CommandShell.Text.Utf8

/-!
# Expansion of variables

Three forms are replaced in a command: `$?` by the last status, `$$` by the process id and `$NAME` by the value of a variable, where a name is a longest stretch of ASCII letters, digits and underscores that does not start with a digit. An unset variable has the empty value, and any other `$` stands for itself.

The forms are first collected as a list of replacements, which are places in the UTF-8 bytes of the command, and the output is then assembled from the command and that list. So what a form is replaced by is never looked at again.
-/

namespace CommandShell

/-- What the forms stand for. -/
structure Scope where
  status : Status
  processId : Text
  valueOf : Text → Option Text

def isNameStart (c : Char) : Bool :=
  ('a'.val ≤ c.val && c.val ≤ 'z'.val) || ('A'.val ≤ c.val && c.val ≤ 'Z'.val) || c == '_'

def isNameCharacter (c : Char) : Bool :=
  isNameStart c || Text.isDigit c

/-- The value of the form whose `$` stands before this text, and the number of characters of the text that belong to the form. -/
def Scope.form? (scope : Scope) : Text → Option (Text × Nat)
  | [] => none
  | '?' :: _ => some (Text.decimal scope.status, 1)
  | '$' :: _ => some (scope.processId, 1)
  | c :: rest =>
    if isNameStart c then
      let name := (c :: rest).takeWhile isNameCharacter
      some ((scope.valueOf name).getD [], name.length)
    else
      none

/-- A stretch of a command, counted in bytes, with the text that takes its place. -/
structure Replacement where
  start : Nat
  size : Nat
  value : Text
  deriving DecidableEq, Repr

/-- The replacements in a text that starts at byte `position` of the command and whose first `skip` characters belong to a form already found. -/
def Scope.replacementsFrom (scope : Scope) (position skip : Nat) : Text → List Replacement
  | [] => []
  | c :: rest =>
    let next := position + c.utf8Size
    match skip with
    | skip + 1 => scope.replacementsFrom next skip rest
    | 0 =>
      if c = '$' then
        match scope.form? rest with
        | some (value, length) =>
          { start := position, size := length + 1, value } ::
            scope.replacementsFrom next length rest
        | none => scope.replacementsFrom next 0 rest
      else
        scope.replacementsFrom next 0 rest

def Scope.replacements (scope : Scope) (command : Text) : List Replacement :=
  scope.replacementsFrom 0 0 command

/-- The text that starts at byte `position` of the command, with the replacements made. The characters of a replaced stretch are dropped, and its value comes with the last of them. -/
def assembleFrom (position : Nat) : Text → List Replacement → Text
  | [], _ => []
  | t, [] => t
  | c :: rest, replacement :: others =>
    let next := position + c.utf8Size
    if position < replacement.start then
      c :: assembleFrom next rest (replacement :: others)
    else if next < replacement.start + replacement.size then
      assembleFrom next rest (replacement :: others)
    else
      replacement.value ++ assembleFrom next rest others

def assemble (command : Text) (replacements : List Replacement) : Text :=
  assembleFrom 0 command replacements

/-- The command with its forms replaced. -/
def Scope.expand (scope : Scope) (command : Text) : Text :=
  assemble command (scope.replacements command)

/-- The command has no form, so that expansion leaves it alone. -/
def Scope.leavesAlone (scope : Scope) (command : Text) : Bool :=
  (scope.replacements command).isEmpty

@[simp]
theorem assembleFrom_nil (position : Nat) (t : Text) : assembleFrom position t [] = t := by
  cases t <;> rfl

theorem Scope.expand_of_leavesAlone (scope : Scope) {command : Text}
    (h : scope.leavesAlone command = true) : scope.expand command = command := by
  simp_all [leavesAlone, expand, assemble]

end CommandShell
