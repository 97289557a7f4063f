import CommandShell.Error
import CommandShell.FileTree.Change
import CommandShell.Interrupt.Flag

/-!
# The host

What a shell works on: a file tree, a working directory in it, the home directory of the process, and the flag in which the process notes interrupts if it minds them. The shell moves about in the tree but never changes it; entries are made and removed by children and from outside.
-/

namespace CommandShell

structure Host where
  tree : FileTree := {}
  location : Location := .root
  home : Option HostPath := none
  interrupt : Option InterruptFlag := none
  deriving DecidableEq, Repr

/-- The way up from a place can be retraced: each directory lets the process search it, and those above the place let it read their names. -/
def FileTree.isRetraceable (tree : FileTree) (place : Place) : Bool :=
  (List.range (place.length + 1)).all fun size =>
    let rights := tree.rightsAt (place.take size)
    rights.execute && (rights.read || size == place.length)

namespace Host

/-- The path of the working directory, which a removed directory no longer has. A path that is too long to be told at once is put together on the way up. -/
def workingDirectory (host : Host) : Except FileError HostPath :=
  match host.location.path? with
  | none => .error .missing
  | some path =>
    if path.bytes.length ≤ longestPath || host.tree.isRetraceable host.location.place then .ok path
    else .error .denied

/-- What the path leads to, with all links followed. -/
def find? (host : Host) (path : HostPath) : Option Entry :=
  (host.tree.walk? host.location path).map Spot.entry

def isDirectory (host : Host) (path : HostPath) : Bool :=
  (host.find? path).any Entry.isDirectory

/-- The host with the path's directory as working directory, which the process must be allowed to search. -/
def enter? (host : Host) (path : HostPath) : Option Host :=
  match host.tree.walk? host.location path with
  | some spot =>
    if spot.entry.isDirectory && spot.entry.rights.execute then
      some { host with location := spot.location }
    else none
  | none => none

/-- The names in the path's directory with what they name, links not followed. The process must be allowed to read the directory. -/
def list? (host : Host) (path : HostPath) : Option (List (Name × Entry)) :=
  match host.tree.walk? host.location path with
  | some spot =>
    if spot.entry.isDirectory && spot.entry.rights.read then
      some (host.tree.entriesAt spot).toList
    else none
  | none => none

/-- The bytes with which the image of a program starts. They are no text. -/
def imageBytes : Bytes := [0x7F, 0x45, 0x4C, 0x46, 0xFF]

/-- The bytes that reading an entry delivers. Directories can be opened but not read; devices and pipes without a writer are at their end. -/
def bytesOf (entry : Entry) : Except FileError Bytes :=
  if !entry.rights.read then .error .denied
  else
    match entry with
    | .directory _ => .error .isDirectory
    | .file (.data bytes) _ => .ok bytes
    | .file (.program _) _ => .ok imageBytes
    | _ => .ok []

/-- The host behind an interrupt, which is noted if the process minds interrupts. -/
def raiseInterrupt (host : Host) : Host :=
  { host with interrupt := host.interrupt.map InterruptFlag.raise }

/-- Whether an interrupt was noted, and the host without the note. -/
def takeInterrupt (host : Host) : Bool × Host :=
  match host.interrupt with
  | none => (false, host)
  | some flag => (flag.take.1, { host with interrupt := some flag.take.2 })

/-- The host after making an entry where the parts lead from a place. -/
def make (host : Host) (place : Place) (parts : List Name) (entry : Entry) : Host :=
  { host with tree := host.tree.make place parts entry }

def makeDirectories (host : Host) (place : Place) (parts : List Name) : Host :=
  { host with tree := host.tree.makeDirectories place parts }

/-- The host after removing what the parts name from a place. -/
def remove (host : Host) (place : Place) (parts : List Name) : Host :=
  match host.tree.named? place parts with
  | none => host
  | some removed =>
    { host with
      tree := host.tree.remove removed
      location := host.location.afterRemoval host.tree removed }

def homeDirectory? (host : Host) (home : Option Text) : Option HostPath :=
  CommandShell.homeDirectory? host.home home

def expandTilde? (host : Host) (home : Option Text) (path : Text) : Option HostPath :=
  CommandShell.expandTilde? host.home home path

end Host

end CommandShell
