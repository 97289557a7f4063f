import CommandShell.Operator
import CommandShell.Word

/-!
# The check of a line

A line is well formed if every operator stands between two words and is one of `;`, `&&` and `||`. The check scans the line once and remembers only the last thing that was not a delimiter. The first character at which no well formed line can continue is the offence; an operator that lacks its right side, or is a lone `&` or `|`, offends where it starts.
-/

namespace CommandShell

/-- The last thing before the scan that was not a delimiter. An operator has its character, the index where it starts and the number of its characters so far. -/
inductive Scanned where
  | nothing
  | word
  | operator (symbol : Char) (start : Nat) (size : Nat)
  deriving DecidableEq, Repr

namespace Scanned

/-- The operator is a single `&` or `|`, which joins no words. -/
def loneStart? : Scanned → Option Nat
  | operator symbol start 1 => if symbol = ';' then none else some start
  | _ => none

/-- The scan behind an operator character, unless that character may not stand there. -/
def push? (scanned : Scanned) (c : Char) (index : Nat) : Option Scanned :=
  match scanned with
  | nothing => none
  | word => some (operator c index 1)
  | operator symbol start size =>
    if c = symbol ∧ c ≠ ';' ∧ size = 1 ∧ index = start + size then
      some (operator symbol start 2)
    else
      none

end Scanned

/-- The index of the first offence in the text, which starts at `index` of the line behind what was `scanned`. -/
def offenceFrom (scanned : Scanned) (index : Nat) : Text → Option Nat
  | [] =>
    match scanned with
    | .operator _ start _ => some start
    | _ => none
  | c :: rest =>
    if isDelimiter c then
      offenceFrom scanned (index + 1) rest
    else if isOperatorCharacter c then
      match scanned.push? c index with
      | some next => offenceFrom next (index + 1) rest
      | none => some index
    else
      match scanned.loneStart? with
      | some start => some start
      | none => offenceFrom .word (index + 1) rest

def offence? (line : Text) : Option Nat :=
  offenceFrom .nothing 0 line

/-- The operator that is reported at an index: a `;` is reported as `;;` next to another one, and `&` and `|` together with a following character of the same kind. -/
def tokenAt (t : Text) (index : Nat) : Text :=
  let before := if index = 0 then none else t[index - 1]?
  let behind := t[index + 1]?
  match t[index]? with
  | some ';' => if before = some ';' ∨ behind = some ';' then [';', ';'] else [';']
  | some '&' => if behind = some '&' then ['&', '&'] else ['&']
  | _ => if behind = some '|' then ['|', '|'] else ['|']

/-- An operator in a place where none may stand. Positions count characters from 1. -/
structure Misplaced where
  token : Text
  position : Nat
  deriving DecidableEq, Repr

/-- The fault of a line, if it has one. -/
def misplaced? (line : Text) : Option Misplaced :=
  (offence? line).map fun index => { token := tokenAt line index, position := index + 1 }

end CommandShell
