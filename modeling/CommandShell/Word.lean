import CommandShell.Text.Basic

/-!
# Words

A command is a sequence of words with delimiters around them. There are no quotes: a word is a longest stretch without delimiters.
-/

namespace CommandShell

def isDelimiter (c : Char) : Bool :=
  c == ' ' || c == '\t' || c == '\r' || c == '\n' || c == '\x07'

/-- The words of a command in order. -/
def words (command : Text) : List Text :=
  (fields isDelimiter command).filter fun word => !word.isEmpty

theorem words_ne_nil {command word : Text} (h : word ∈ words command) : word ≠ [] := by
  rintro rfl
  simp [words] at h

end CommandShell
