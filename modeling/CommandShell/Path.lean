import CommandShell.Text.Utf8

/-!
# Paths

A path is text with `/` between its parts. Joining puts one `/` between a directory and a name, except behind a directory that already ends in one. A leading `~` stands for the home directory, alone or in front of a `/`; `~name` is a name like any other.

A host takes paths as bytes and tells them as bytes, which need not be text. The paths that a shell makes up itself are text, and of those that it is told it can show the text, with replacement characters in the place of what is none.
-/

namespace CommandShell

namespace Path

def isSlash (c : Char) : Bool :=
  c == '/'

def isAbsolute (path : Text) : Bool :=
  path.head? == some '/'

/-- The path of `part` as seen from `directory`. An absolute part is its own path. -/
def join (directory part : Text) : Text :=
  if isAbsolute part then part
  else if directory.isEmpty || directory.getLast? == some '/' then directory ++ part
  else directory ++ '/' :: part

/-- The parts between slashes that are not empty. -/
def parts (path : Text) : List Text :=
  (fields isSlash path).filter fun part => !part.isEmpty

end Path

/-- A path as a host takes it and tells it. -/
structure HostPath where
  bytes : Bytes
  deriving DecidableEq, Repr

namespace HostPath

def slash : UInt8 := 0x2F

def isSlash (b : UInt8) : Bool :=
  b == slash

def ofText (path : Text) : HostPath :=
  { bytes := path.utf8 }

/-- The path as it is shown. What is no text of it is replaced. -/
def shown (path : HostPath) : Text :=
  path.bytes.decoded

def isAbsolute (path : HostPath) : Bool :=
  path.bytes.head? == some slash

/-- The parts between slashes, of which some may be empty. -/
def parts (path : HostPath) : List Bytes :=
  fields isSlash path.bytes

/-- The path of `part` as seen from `directory`. -/
def join (directory : HostPath) (part : Text) : HostPath :=
  if Path.isAbsolute part then ofText part
  else if directory.bytes.isEmpty || directory.bytes.getLast? == some slash then
    { bytes := directory.bytes ++ part.utf8 }
  else { bytes := directory.bytes ++ slash :: part.utf8 }

/-- The directory extended by the parts in order. -/
def extend (directory : HostPath) (parts : List Text) : HostPath :=
  if parts.isEmpty then directory else directory.join (Text.joined ['/'] parts)

end HostPath

/-- Where home directories come from: the home of the process stands in for one that a session lacks. -/
def homeDirectory? (processHome : Option HostPath) (home : Option Text) : Option HostPath :=
  match home with
  | some [] => processHome
  | some directory => some (.ofText directory)
  | none => processHome

/-- The path that `path` stands for. Slashes behind `~/` count for nothing, so the result never leaves the home directory upwards to the root. -/
def expandTilde? (processHome : Option HostPath) (home : Option Text) : Text → Option HostPath
  | ['~'] => homeDirectory? processHome home
  | '~' :: '/' :: rest =>
    (homeDirectory? processHome home).map fun directory => directory.extend (Path.parts rest)
  | path => some (.ofText path)

end CommandShell
