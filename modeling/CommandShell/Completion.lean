import CommandShell.Builtin.Basic
import CommandShell.CommandSearch
import CommandShell.Line.Highlight

/-!
# Completion

The word before the cursor is completed to a command name if a command name can stand there and it has no `/`, and else to a path. Command names are the builtins and the files and links in the directories of the search path; they are collected once and again when the search path changes. Paths are read from the tree at each question: names that start with a dot are offered only for a word that does, and directories end in `/` so that completion can go on. A name that is no text cannot be typed and is not offered.
-/

namespace CommandShell

/-- A proposal: what is listed, and what takes the place of the word. -/
structure Candidate where
  display : Text
  replacement : Text
  deriving DecidableEq, Repr

/-- The longest beginning of a text that has at most so many UTF-8 bytes. -/
def Text.takeUtf8 : Nat → Text → Text
  | _, [] => []
  | size, c :: rest =>
    if c.utf8Size ≤ size then c :: takeUtf8 (size - c.utf8Size) rest else []

/-- A character that ends a word. -/
def breaksWord (c : Char) : Bool :=
  isDelimiter c || isOperatorCharacter c

/-- The last characters of a text that satisfy `p`. -/
def Text.takeEnd (p : Char → Bool) (t : Text) : Text :=
  (t.reverse.takeWhile p).reverse

/-- The text before the cursor, cut in front of the word that the cursor touches. -/
structure Cursor where
  context : Text
  word : Text
  deriving DecidableEq, Repr

namespace Cursor

def ofText (before : Text) : Cursor :=
  let word := before.takeEnd fun c => !breaksWord c
  { context := before.take (before.length - word.length), word }

/-- The word would be the first of a command. -/
def isCommandPosition (cursor : Cursor) : Bool :=
  match (trimmedEnd isDelimiter cursor.context).getLast? with
  | none => true
  | some c => isOperatorCharacter c

def completesCommand (cursor : Cursor) : Bool :=
  cursor.isCommandPosition && !cursor.word.contains '/'

end Cursor

namespace Host

/-- The names in the directory that are text, with what they name. A directory that cannot be listed has none. -/
def textNames (host : Host) (directory : Text) : List (Text × Entry) :=
  ((host.list? (.ofText directory)).getD []).filterMap fun child =>
    (Bytes.text? child.1).map fun name => (name, child.2)

/-- The names in the directories of a search path that may be commands. -/
def namesOnPath (host : Host) (searchPath : Text) : List Text :=
  ((fields isColon searchPath).filter fun entry => !entry.isEmpty).flatMap fun entry =>
    ((host.textNames entry).filter fun child => child.2.isFileOrLink).map Prod.fst

def commandNames (host : Host) (searchPath : Option Text) : List Text :=
  Text.sortedSet (Builtin.all.map Builtin.name ++ (searchPath.map host.namesOnPath).getD [])

/-- The directory to look into for a word, given the part of it up to its last `/`. -/
def directoryOf (typed : Text) : Text :=
  if typed.isEmpty then ['.'] else if typed = ['/'] then ['/'] else typed.dropLast

/-- A name is offered for what is typed of it, unless it is hidden and nothing asks for hidden names. -/
def offers (stem name : Text) : Bool :=
  stem.isPrefixOf name && (name.head? != some '.' || stem.head? == some '.')

def pathCandidates (host : Host) (word : Text) : List Candidate :=
  let stem := word.takeEnd fun c => c != '/'
  let typed := word.take (word.length - stem.length)
  let directory := directoryOf typed
  let names := ((host.textNames directory).map Prod.fst).filter fun name => offers stem name
  sortedBy (fun candidate => candidate.display.utf8) <|
    names.map fun name =>
      if host.isDirectory (.ofText (Path.join directory name)) then
        { display := name ++ ['/'], replacement := typed ++ name ++ ['/'] }
      else
        { display := name, replacement := typed ++ name ++ [' '] }

end Host

/-- The command names collected for a search path. -/
structure Completer where
  searchPath : Option Text
  commandNames : List Text
  deriving DecidableEq, Repr

namespace Completer

def ofSearchPath (host : Host) (searchPath : Option Text) : Completer :=
  { searchPath, commandNames := host.commandNames searchPath }

/-- Follows a change of the search path, and tells whether there was one. -/
def sync (completer : Completer) (host : Host) (searchPath : Option Text) : Bool × Completer :=
  if completer.searchPath = searchPath then (false, completer)
  else (true, ofSearchPath host searchPath)

def commandCandidates (completer : Completer) (stem : Text) : List Candidate :=
  (completer.commandNames.filter fun name => stem.isPrefixOf name).map fun name =>
    { display := name, replacement := name ++ [' '] }

/-- The byte at which the word before the cursor starts, and the proposals for it. The cursor stands behind `position` bytes of the line. -/
def complete (completer : Completer) (host : Host) (line : Text) (position : Nat) :
    Nat × List Candidate :=
  let cursor := Cursor.ofText (line.takeUtf8 position)
  (cursor.context.utf8Size,
    if cursor.completesCommand then completer.commandCandidates cursor.word
    else host.pathCandidates cursor.word)

end Completer

end CommandShell
