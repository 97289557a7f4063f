import CommandShell.FileError
import CommandShell.FileTree.Basic

/-!
# Walking a file tree

A path is followed part by part from a location. Empty parts and `.` stay, `..` goes up, and a name goes down, but each of them needs a directory to start from, so a path with a `/` at its end leads to a directory or nowhere. All but the empty ones also need a directory that the process may search. A link is replaced by its target. Not more than forty links are followed on one walk, which ends the walk on links that lead in a circle.

A directory can be removed while a process works in it. The process stays there: it can still go up from where the directory was, but it finds no names there. The link to where another process works leads there too.
-/

namespace CommandShell

/-- The number of bytes that a name may have at most. -/
def longestName : Nat := 255

/-- The number of bytes that a path may have at most. -/
def longestPath : Nat := 4095

/-- The number of links that one walk follows at most. -/
def mostLinks : Nat := 40

namespace Name

def dot : Name := [0x2E]

def dots : Name := [0x2E, 0x2E]

end Name

/-- A step down: the name, and what was found under it. -/
structure Step where
  name : Name
  entry : Entry
  below : Forest
  deriving DecidableEq, Repr

/-- Where a walk stands: what the process may do with the root, the steps down from it, the last one first, and the removed directories below them. -/
structure Spot where
  top : Rights := {}
  steps : List Step := []
  gone : List Rights := []
  deriving DecidableEq, Repr

namespace Spot

def isRemoved (spot : Spot) : Bool :=
  !spot.gone.isEmpty

/-- What is at the spot. Only directories can be removed while someone is there. -/
def entry (spot : Spot) : Entry :=
  match spot.gone.getLast?, spot.steps with
  | some rights, _ => .directory rights
  | none, [] => .directory spot.top
  | none, step :: _ => step.entry

def location (spot : Spot) : Location :=
  { place := (spot.steps.map Step.name).reverse, gone := spot.gone }

def up (spot : Spot) : Spot :=
  if spot.isRemoved then { spot with gone := spot.gone.dropLast }
  else { spot with steps := spot.steps.drop 1 }

/-- A path starts at the root if it is absolute, and else at the spot. -/
def startOf (spot : Spot) (path : HostPath) : Spot :=
  if path.isAbsolute then { top := spot.top } else spot

end Spot

/-- Where following the parts of a path leads without following a link. -/
inductive Stride where
  | arrived (spot : Spot)
  | blocked (error : FileError)
  | link (spot : Spot) (target : Target) (rest : List Name)
  deriving DecidableEq, Repr

/-- The steps to a place in the forest, given the steps to the forest. All of them lead to directories. -/
def Forest.stepsFrom? (forest : Forest) (steps : List Step) : Place → Option (List Step)
  | [] => some steps
  | name :: rest =>
    match forest.find? name with
    | some (.directory rights, below) =>
      below.stepsFrom? ({ name, entry := .directory rights, below } :: steps) rest
    | _ => none

namespace FileTree

/-- The spot at a location that someone can work in, whose place is a directory of the tree. -/
def spotAt (tree : FileTree) (location : Location) : Except FileError Spot :=
  match tree.top.stepsFrom? [] location.place with
  | some steps => .ok { top := tree.rights, steps, gone := location.gone }
  | none => .error .missing

/-- The entries in the directory at the spot. A removed directory has none. -/
def entriesAt (tree : FileTree) (spot : Spot) : Forest :=
  if spot.isRemoved then .empty
  else
    match spot.steps with
    | [] => tree.top
    | step :: _ => step.below

/-- Goes down to the name in the directory at the spot. -/
def down (tree : FileTree) (spot : Spot) (name : Name) : Except FileError Spot :=
  if spot.isRemoved then .error .missing
  else if longestName < name.length then .error .nameTooLong
  else
    match (tree.entriesAt spot).find? name with
    | some (entry, below) => .ok { spot with steps := { name, entry, below } :: spot.steps }
    | none => .error .missing

/-- Follows the parts up to the first link. -/
def stride (tree : FileTree) (spot : Spot) : List Name → Stride
  | [] => .arrived spot
  | part :: rest =>
    if !spot.entry.isDirectory then .blocked .notDirectory
    else if part.isEmpty then tree.stride spot rest
    else if !spot.entry.rights.execute then .blocked .denied
    else if part == Name.dot then tree.stride spot rest
    else if part == Name.dots then tree.stride spot.up rest
    else
      match tree.down spot part with
      | .error error => .blocked error
      | .ok next =>
        match next.entry with
        | .link target => .link spot target rest
        | _ => tree.stride next rest

/-- The spot at which another process works. -/
def workplace (tree : FileTree) (process : Nat) : Except FileError Spot :=
  match tree.workplaces.lookup process with
  | some location => tree.spotAt location
  | none => .error .missing

/-- From where a walk goes on that comes to a link at the spot, and along which parts it goes there. -/
def follow (tree : FileTree) (spot : Spot) : Target → Except FileError (Spot × List Name)
  | .path path => .ok (spot.startOf path, path.parts)
  | .workplace process => (tree.workplace process).map fun there => (there, [])

/-- Follows the parts and at most `links` links. -/
def walkParts (tree : FileTree) : Nat → Spot → List Name → Except FileError Spot
  | links, spot, parts =>
    match tree.stride spot parts with
    | .arrived destination => .ok destination
    | .blocked error => .error error
    | .link above target rest =>
      match links with
      | 0 => .error .tooManyLinks
      | links + 1 =>
        match tree.follow above target with
        | .error error => .error error
        | .ok (start, way) => tree.walkParts links start (way ++ rest)

/-- Where the parts lead from the location, with all links followed. -/
def walkFrom (tree : FileTree) (location : Location) (parts : List Name) :
    Except FileError Spot :=
  (tree.spotAt location).bind fun spot => tree.walkParts mostLinks spot parts

/-- Where the path leads from the location, however long it is. An empty one stays there. -/
def walkAnyPath (tree : FileTree) (location : Location) (path : HostPath) : Except FileError Spot :=
  tree.walkFrom (if path.isAbsolute then .root else location) path.parts

/-- Where the path leads from the location, with all links followed. A path that is too long leads nowhere, and neither does one that is empty or has a NUL. -/
def walk (tree : FileTree) (location : Location) (path : HostPath) : Except FileError Spot :=
  if longestPath < path.bytes.length then .error .nameTooLong
  else if path.bytes.isEmpty || path.bytes.contains 0 then .error .missing
  else tree.walkAnyPath location path

def walk? (tree : FileTree) (location : Location) (path : HostPath) : Option Spot :=
  (tree.walk location path).toOption

end FileTree

end CommandShell
