import CommandShell.Text.Basic

/-!
# Comments

A `#` opens a comment at the start of a line and behind a blank, a tab or a `;`. Anywhere else it is a character like any other, so `a#b` is one word.
-/

namespace CommandShell

/-- A `#` behind this character, or at the start of the line, opens a comment. -/
def opensComment : Option Char → Bool
  | none => true
  | some c => c == ' ' || c == '\t' || c == ';'

def withoutCommentAfter (previous : Option Char) : Text → Text
  | [] => []
  | c :: rest =>
    if c = '#' ∧ opensComment previous = true then []
    else c :: withoutCommentAfter (some c) rest

/-- The line up to its first comment. -/
def withoutComment (line : Text) : Text :=
  withoutCommentAfter none line

end CommandShell
