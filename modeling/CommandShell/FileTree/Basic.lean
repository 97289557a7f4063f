import CommandShell.Program

/-!
# File trees

A file tree maps places to entries. A place is the list of names on the way from the root, and the root itself is always a directory. The entries of a directory stand side by side, each with those below it, so a place is found by going down one name after the other. An entry is removed together with everything below it.

A tree is seen by one process, whose user stays the same: what the modes, owners and capabilities of the host come to for this process are its rights, and they are kept with the entries. The tree also has the working directories of other processes, since links of the host lead there.
-/

namespace CommandShell

/-- Names are bytes, like paths, and need not be text. -/
abbrev Name := Bytes

abbrev Place := List Name

/-- What the process may do with a file or a directory. To execute a directory is to search it for names, which every step from it needs. -/
structure Rights where
  read : Bool := true
  execute : Bool := true
  deriving DecidableEq, Repr

/-- The rights of a process that runs as root to a file of this mode: it may read any file, but execute only one that some class of users may execute. To directories it has all rights. -/
def Rights.ofRoot (mode : Nat) : Rights :=
  { execute := mode &&& 0o111 != 0 }

/-- What the bytes of a regular file are to someone who executes it. -/
inductive Content where
  | data (bytes : Bytes)
  | program (actions : Program)
  deriving DecidableEq, Repr

/-- Where a link leads: along a path, or to where another process works, whatever the path of that is. -/
inductive Target where
  | path (path : HostPath)
  | workplace (process : Nat)
  deriving DecidableEq, Repr

inductive Entry where
  | directory (rights : Rights := {})
  | file (content : Content) (rights : Rights := {})
  | link (target : Target)
  | pipe (rights : Rights := {})
  | device (rights : Rights := {})
  deriving DecidableEq, Repr

namespace Entry

def isDirectory : Entry → Bool
  | directory _ => true
  | _ => false

def rights : Entry → Rights
  | directory rights => rights
  | file _ rights => rights
  | link _ => {}
  | pipe rights => rights
  | device rights => rights

/-- A regular file that can be executed. -/
def isExecutable : Entry → Bool
  | file _ rights => rights.execute
  | _ => false

/-- A regular file or a link, whatever the link leads to. -/
def isFileOrLink : Entry → Bool
  | file _ _ => true
  | link _ => true
  | _ => false

end Entry

/-- Entries side by side, each with its name and with the entries below it. -/
inductive Forest where
  | empty
  | tree (name : Name) (entry : Entry) (below others : Forest)
  deriving DecidableEq, Repr

namespace Forest

def get? : Forest → Place → Option Entry
  | empty, _ => none
  | tree _ _ _ _, [] => none
  | tree name entry below others, first :: rest =>
    if name = first then
      if rest.isEmpty then some entry else below.get? rest
    else
      others.get? (first :: rest)

/-- The entry of that name, and the entries below it. -/
def find? : Forest → Name → Option (Entry × Forest)
  | empty, _ => none
  | tree known entry below others, name =>
    if known = name then some (entry, below) else others.find? name

/-- The entry alone at its place, with directories on the way to it. -/
def sprout (entry : Entry) : Place → Forest
  | [] => empty
  | name :: rest =>
    if rest.isEmpty then tree name entry empty empty
    else tree name .directory (sprout entry rest) empty

/-- Puts the entry at the place, instead of one that is there. -/
def put (entry : Entry) : Forest → Place → Forest
  | empty, place => sprout entry place
  | tree name known below others, [] => tree name known below others
  | tree name known below others, first :: rest =>
    if name = first then
      if rest.isEmpty then tree name entry below others
      else tree name known (below.put entry rest) others
    else
      tree name known below (others.put entry (first :: rest))

/-- Removes the entry at the place and everything below it. -/
def remove : Forest → Place → Forest
  | empty, _ => empty
  | tree name entry below others, [] => tree name entry below others
  | tree name entry below others, first :: rest =>
    if name = first then
      if rest.isEmpty then others else tree name entry (below.remove rest) others
    else
      tree name entry below (others.remove (first :: rest))

/-- The names side by side with what they name. -/
def toList : Forest → List (Name × Entry)
  | empty => []
  | tree name entry _ others => (name, entry) :: others.toList

end Forest

/-- A place that may be in a removed part of the tree: `gone` are the directories below `place` that were removed, with what the process may do with them. -/
structure Location where
  place : Place
  gone : List Rights := []
  deriving DecidableEq, Repr

namespace Location

def root : Location := { place := [] }

def isRemoved (location : Location) : Bool :=
  !location.gone.isEmpty

/-- The path of a location that was not removed. -/
def path? (location : Location) : Option HostPath :=
  if location.isRemoved then none
  else if location.place.isEmpty then some { bytes := [HostPath.slash] }
  else some { bytes := location.place.flatMap fun name => HostPath.slash :: name }

end Location

/-- A file tree, given by the entries in its root, by what the process may do with the root, and by the places where other processes work. -/
structure FileTree where
  top : Forest := .empty
  rights : Rights := {}
  workplaces : List (Nat × Location) := []
  deriving DecidableEq, Repr

namespace FileTree

def get? (tree : FileTree) (place : Place) : Option Entry :=
  if place.isEmpty then some (.directory tree.rights) else tree.top.get? place

def isDirectory (tree : FileTree) (place : Place) : Bool :=
  (tree.get? place).any Entry.isDirectory

/-- What the process may do with what is at the place. -/
def rightsAt (tree : FileTree) (place : Place) : Rights :=
  ((tree.get? place).map Entry.rights).getD {}

def put (tree : FileTree) (place : Place) (entry : Entry) : FileTree :=
  { tree with top := tree.top.put entry place }

end FileTree

/-- The location after the removal of a place from the tree. -/
def Location.afterRemoval (location : Location) (tree : FileTree) (removed : Place) : Location :=
  if removed.isPrefixOf location.place then
    let sizes := List.range' removed.length (location.place.length + 1 - removed.length)
    { place := removed.dropLast
      gone := sizes.map (fun size => tree.rightsAt (location.place.take size)) ++ location.gone }
  else
    location

namespace FileTree

def remove (tree : FileTree) (place : Place) : FileTree :=
  { tree with
    top := tree.top.remove place
    workplaces := tree.workplaces.map fun workplace =>
      (workplace.1, workplace.2.afterRemoval tree place) }

end FileTree

end CommandShell
