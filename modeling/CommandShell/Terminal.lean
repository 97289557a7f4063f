import CommandShell.Input
import CommandShell.Text.Grapheme.Cluster

/-!
# Lines from a terminal

A terminal delivers lines without their ends, as long as they are text. A backspace in a line is not part of it, but takes back what was typed before it: one cluster, which a reader takes for one character, and nothing at the start of the line.
-/

namespace CommandShell

/-- A line while it is typed: its characters from the last to the first, and the sizes in bytes of its clusters, likewise. A size is kept in one byte, so that of a cluster with 256 bytes or more only the remainder is taken back. -/
structure TypedLine where
  reversed : Text := []
  sizes : List UInt8 := []
  deriving DecidableEq, Repr

def backspace : Char := '\x08'

/-- The text without its first characters that together have the given number of UTF-8 bytes, unless that number ends inside a character. -/
def Text.dropUtf8? : Nat → Text → Option Text
  | 0, t => some t
  | _ + 1, [] => none
  | size + 1, c :: rest =>
    if c.utf8Size ≤ size + 1 then dropUtf8? (size + 1 - c.utf8Size) rest else none

namespace TypedLine

/-- Takes back the last cluster, if there is one. -/
def takeBack? (line : TypedLine) : Option TypedLine :=
  match line.sizes with
  | [] => some line
  | size :: sizes =>
    (line.reversed.dropUtf8? size.toNat).map fun reversed => { reversed, sizes }

def add (line : TypedLine) (cluster : Text) : TypedLine :=
  { reversed := cluster.reverse ++ line.reversed
    sizes := cluster.utf8Size.toUInt8 :: line.sizes }

def type? (line : TypedLine) (cluster : Text) : Option TypedLine :=
  if cluster = [backspace] then line.takeBack? else some (line.add cluster)

def text (line : TypedLine) : Text :=
  line.reversed.reverse

@[simp]
theorem text_add (line : TypedLine) (cluster : Text) :
    (line.add cluster).text = line.text ++ cluster := by
  simp [text, add]

end TypedLine

/-- The text that is left of a line when its backspaces have had their effect, unless one of them would cut a character. -/
def Text.withoutBackspaces? (t : Text) : Option Text :=
  (t.clusters.foldlM TypedLine.type? {}).map TypedLine.text

namespace LineSource

/-- A line as it is typed, without its end and its backspaces. -/
def terminalLine (line : Bytes) : Except FileError Text :=
  match line.text? with
  | none => .error .notText
  | some t =>
    match (withoutLineEnd t).withoutBackspaces? with
    | some typed => .ok typed
    | none => .error .cutCharacter

/-- The lines up to the first that cannot be read. -/
def ofTerminalRecords : List Bytes → LineSource
  | [] => {}
  | line :: rest =>
    match terminalLine line with
    | .ok typed =>
      let source := ofTerminalRecords rest
      { source with lines := typed :: source.lines }
    | .error error => { failure := some error }

def ofTerminal (bytes : Bytes) : LineSource :=
  ofTerminalRecords (lineRecords bytes)

end LineSource

end CommandShell
