import CommandShell.Host

/-!
# Reading lines

Input comes as bytes and is run line by line. A stream is cut behind each newline before it is read as text, and the newline stays with its line. A startup file is read as text first and its lines lose their ends.
-/

namespace CommandShell

/-- The line without its newline, nor a carriage return before that. -/
def withoutLineEnd (line : Text) : Text :=
  match line.reverse with
  | '\n' :: '\r' :: rest => rest.reverse
  | '\n' :: rest => rest.reverse
  | _ => line

/-- The lines of a text, without their ends. -/
def textLines (t : Text) : List Text :=
  (records (fun c => c == '\n') t).map withoutLineEnd

/-- The bytes of each line of a stream, newlines included. -/
def lineRecords (bytes : Bytes) : List Bytes :=
  records (fun b => b == 0x0A) bytes

/-- What can be read from somewhere: lines, and behind them the failure that ends the input early. -/
structure LineSource where
  lines : List Text := []
  failure : Option FileError := none
  deriving DecidableEq, Repr

/-- What comes of reading from a source: a line, or nothing because of an interrupt. -/
inductive Reading where
  | line (raw : Text)
  | interrupted
  deriving DecidableEq, Repr

namespace LineSource

/-- The readings of a source that nothing interrupts. -/
def readings (source : LineSource) : List Reading :=
  source.lines.map .line

def ofStream (bytes : Bytes) : LineSource :=
  { lines := (lineRecords bytes).map Bytes.decoded }

end LineSource

namespace Host

/-- A script to be read line by line. What the process may not read cannot be opened. A directory can, but reading it fails. -/
def openScript (host : Host) (path : Text) : Except ShellError LineSource :=
  match host.find? (.ofText path) with
  | none => .error (.scriptOpen path)
  | some entry =>
    if !entry.rights.read then .error (.scriptOpen path)
    else
      match bytesOf entry with
      | .ok bytes => .ok (.ofStream bytes)
      | .error error => .ok { failure := some error }

/-- The whole file as text. -/
def readText (entry : Entry) : Except FileError Text :=
  match bytesOf entry with
  | .error error => .error error
  | .ok bytes =>
    match bytes.text? with
    | some t => .ok t
    | none => .error .notText

end Host

end CommandShell
