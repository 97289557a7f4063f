import CommandShell.Operator
import CommandShell.Palette
import CommandShell.Word

/-!
# Highlighting

A line is shown with its command names, operators, variables and flags painted. It is cut into single delimiters, longest stretches of operator characters and longest stretches of other characters, the words. The first word of the line and the first behind operators is a command name.
-/

namespace CommandShell

inductive Piece where
  | delimiter (c : Char)
  | operators (t : Text)
  | word (t : Text)
  deriving DecidableEq, Repr

namespace Piece

def text : Piece → Text
  | delimiter c => [c]
  | operators t => t
  | word t => t

/-- Puts a character in front of pieces, into the first of them if it belongs there. -/
def add (c : Char) (pieces : List Piece) : List Piece :=
  if isDelimiter c then
    delimiter c :: pieces
  else if isOperatorCharacter c then
    match pieces with
    | operators t :: rest => operators (c :: t) :: rest
    | _ => operators [c] :: pieces
  else
    match pieces with
    | word t :: rest => word (c :: t) :: rest
    | _ => word [c] :: pieces

def ofLine (line : Text) : List Piece :=
  line.foldr add []

def commandStyle : Style := { colour := .cyan, isBold := true }

def operatorStyle : Style := { colour := .yellow, isBold := true }

def variableStyle : Style := { colour := .green }

def flagStyle : Style := { colour := .yellow }

/-- The style of a word, if it has one. -/
def wordStyle? (isCommand : Bool) (word : Text) : Option Style :=
  if isCommand then some commandStyle
  else if word.head? = some '$' then some variableStyle
  else if word.head? = some '-' then some flagStyle
  else none

def paintWord (isCommand : Bool) (word : Text) : Text :=
  match wordStyle? isCommand word with
  | some style => style.paint word
  | none => word

/-- Paints the pieces, given whether the next word is a command name. -/
def paint (isCommand : Bool) : List Piece → Text
  | [] => []
  | delimiter c :: rest => c :: paint isCommand rest
  | operators t :: rest => operatorStyle.paint t ++ paint true rest
  | word t :: rest => paintWord isCommand t ++ paint false rest

theorem flatMap_text_add (c : Char) (pieces : List Piece) :
    (add c pieces).flatMap text = c :: pieces.flatMap text := by
  unfold add
  split
  · rfl
  · split <;> split <;> rfl

theorem flatMap_text_ofLine (line : Text) : (ofLine line).flatMap text = line := by
  induction line with
  | nil => rfl
  | cons c rest ih =>
    have h : ofLine (c :: rest) = add c (ofLine rest) := rfl
    rw [h, flatMap_text_add, ih]

end Piece

/-- The line as it is shown. -/
def Palette.line : Palette → Text → Text
  | plain, line => line
  | coloured, line => Piece.paint true (Piece.ofLine line)

end CommandShell
