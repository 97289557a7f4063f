import CommandShell.Text.Basic

/-!
# Interpreter lines

An executable file that starts with `#!` names in its first line the program that is to run it, and behind blanks one argument for that program, which may hold blanks itself. Only the head of the file is looked at. An argument that is longer is cut there, but a path that may be longer names nothing.

The head of a short file is filled up with NUL. A NUL ends the path and the argument, but blanks in front of it belong to the argument, whereas blanks in front of a newline belong to nothing.
-/

namespace CommandShell

/-- The number of bytes at the start of a file by which its format is told. -/
def headSize : Nat := 256

def head (bytes : Bytes) : Bytes :=
  bytes.take headSize ++ List.replicate (headSize - bytes.length) 0

structure InterpreterLine where
  path : Bytes
  argument : Option Bytes := none
  deriving DecidableEq, Repr

namespace InterpreterLine

def isBlank (b : UInt8) : Bool :=
  b == 0x20 || b == 0x09

def endsPath (b : UInt8) : Bool :=
  isBlank b || b == 0

/-- The part of the head behind `#!` that can be relied on: up to a newline, or else all but the last byte, if the path is seen to end. -/
def reliable? (bytes : Bytes) : Option Bytes :=
  if bytes.contains 0x0A then some (bytes.takeWhile fun b => b != 0x0A)
  else if (bytes.dropWhile isBlank).any endsPath then some bytes.dropLast
  else none

/-- The argument that stands behind the path. -/
def argument? : Bytes → Option Bytes
  | [] => none
  | b :: rest =>
    if isBlank b then some ((rest.dropWhile isBlank).takeWhile fun b => b != 0) else none

def ofLine? (line : Bytes) : Option InterpreterLine :=
  let words := (trimmedEnd isBlank line).dropWhile isBlank
  if words.isEmpty then none
  else
    some
      { path := words.takeWhile fun b => !endsPath b
        argument := argument? (words.dropWhile fun b => !endsPath b) }

/-- The interpreter line of a file with these bytes. -/
def ofBytes? (bytes : Bytes) : Option InterpreterLine :=
  match head bytes with
  | 0x23 :: 0x21 :: rest => (reliable? rest).bind ofLine?
  | _ => none

end InterpreterLine

end CommandShell
