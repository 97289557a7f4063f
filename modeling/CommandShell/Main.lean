import CommandShell.Invocation

/-!
# The program

Runs the shell over a file tree that holds copies of the files a run may read: the script and the startup files. The whole input is read before the first line runs. The tree holds no programs, and no directories but those on the way to these files and to the working directory, so external commands are not found here.
-/

namespace CommandShell

/-- The variables that the program takes over from its environment. -/
def inheritedNames : List String :=
  ["CLICOLOR", "CLICOLOR_FORCE", "COLORTERM", "HOME", "LANG", "LOGNAME", "NO_COLOR", "OLDPWD",
    "PATH", "PWD", "SHELL", "TERM", "TERM_PROGRAM", "USER"]

def inheritedEnvironment : IO EnvironmentBlock := do
  let entries ← inheritedNames.filterMapM fun name => do
    let value ← IO.getEnv name
    return value.map fun value => (Text.utf8 name.toList, Text.utf8 value.toList)
  return .ofList entries

/-- The way to a path as seen from a directory. -/
def partsOf (directory path : Text) : List Name :=
  (Path.parts (Path.join directory path)).map Text.utf8

/-- The tree with a copy of the file, if there is one that can be read. -/
def withCopy (tree : FileTree) (directory path : Text) : IO FileTree := do
  try
    let bytes ← IO.FS.readBinFile (String.ofList (Path.join directory path))
    return tree.make [] (partsOf directory path) (.file (.data bytes.toList))
  catch _ =>
    return tree

partial def readRest (stream : IO.FS.Stream) (bytes : ByteArray) : IO ByteArray := do
  let chunk ← stream.read 65536
  if chunk.isEmpty then return bytes else readRest stream (bytes ++ chunk)

/-- The paths of the files that a run with these arguments may read. -/
def readPaths (arguments : List Text) (home : Option HostPath) : List Text :=
  let options := (Options.parse {} arguments).2
  options.positionals ++ (options.value? .config).toList ++
    (home.bind fun home => (home.join ".hshrc".toList).bytes.text?).toList

end CommandShell

open CommandShell Children.Performing in
def main (args : List String) : IO UInt32 := do
  let arguments := args.map String.toList
  let directory := (← IO.currentDir).toString.toList
  let environment ← inheritedEnvironment
  let place := partsOf [] directory
  let tree := ({} : FileTree).makeDirectories [] place
  let tree ← (readPaths arguments (environment.home?.map HostPath.mk)).foldlM (withCopy · directory ·) tree
  let stdin ← IO.getStdin
  let input ← readRest stdin .empty
  let outcome := Invocation.run
    { name := "hsh".toList
      arguments
      environment
      host := { tree, location := { place } }
      input := input.toList
      isTerminal := (← stdin.isTty)
      processId := "1".toList }
  (← IO.getStdout).write ⟨outcome.output.toArray⟩
  (← IO.getStderr).write ⟨outcome.errors.toArray⟩
  return outcome.code.toUInt32
