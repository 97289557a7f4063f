import CommandShell.FileTree.Walk

/-!
# Changing a file tree

Entries are made where a path leads from a place: links on the way are followed, and directories that are missing on the way are made. A file whose name is that of a link is made where the link leads; every other entry takes its name for itself. What is removed is always the name itself, with everything below it.
-/

namespace CommandShell

namespace FileTree

/-- Goes along the parts from a place and makes the directories that are missing. The place is where the parts lead. -/
def makeWay (tree : FileTree) (place : Place) : List Name → FileTree × Place
  | [] => (tree, place)
  | part :: rest =>
    match tree.walkFrom { place } [part] with
    | .ok spot => tree.makeWay spot.location.place rest
    | .error _ => (tree.put (place ++ [part]) .directory).makeWay (place ++ [part]) rest

def makeDirectories (tree : FileTree) (place : Place) (parts : List Name) : FileTree :=
  (tree.makeWay place parts).1

/-- Where a file is made that is given the name of the place: at the end of the links that start there, of which at most `links` are followed. -/
def destination (tree : FileTree) : Nat → Place → Place
  | 0, place => place
  | links + 1, place =>
    match tree.get? place with
    | some (.link (.path target)) =>
      let start : Location := { place := if target.isAbsolute then [] else place.dropLast }
      match tree.walkFrom start target.parts.dropLast, target.parts.getLast? with
      | .ok above, some name => tree.destination links (above.location.place ++ [name])
      | _, _ => place
    | _ => place

/-- Makes the entry where the parts lead from a place. -/
def make (tree : FileTree) (place : Place) (parts : List Name) (entry : Entry) : FileTree :=
  let (made, above) := tree.makeWay place parts.dropLast
  match parts.getLast?, entry with
  | none, _ => made
  | some name, .file _ _ => made.put (made.destination mostLinks (above ++ [name])) entry
  | some name, _ => made.put (above ++ [name]) entry

/-- The place of the last part, with links followed on the way to it. -/
def named? (tree : FileTree) (place : Place) (parts : List Name) : Option Place :=
  match tree.walkFrom { place } parts.dropLast, parts.getLast? with
  | .ok above, some name => some (above.location.place ++ [name])
  | _, _ => none

end FileTree

end CommandShell
