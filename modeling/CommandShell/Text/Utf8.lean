import CommandShell.Text.Basic

/-!
# UTF-8

Text leaves the shell as UTF-8 bytes, and bytes that come in are read as UTF-8. Reading never fails: a longest stretch of bytes that begins a character but cannot be completed counts as one replacement character, and so does a byte that can begin none.

The reader is a machine with one byte of input per step. Its state is the character under construction, if any; a byte that cannot continue that character ends it as a replacement character and is then read afresh. A byte below 128 always leaves the machine idle, which is why a stream may be cut at newlines before or after reading it.
-/

namespace CommandShell

namespace Text

def utf8 (t : Text) : Bytes :=
  t.flatMap String.utf8EncodeChar

/-- The number of bytes that the text has in UTF-8. -/
def utf8Size (t : Text) : Nat :=
  t.foldl (fun size c => size + c.utf8Size) 0

theorem foldl_utf8Size (size : Nat) (t : Text) :
    t.foldl (fun size c => size + c.utf8Size) size = size + t.utf8.length := by
  induction t generalizing size with
  | nil => rfl
  | cons c rest ih =>
    rw [List.foldl_cons, ih, utf8, utf8, List.flatMap_cons, List.length_append,
      String.length_utf8EncodeChar]
    omega

theorem utf8Size_eq_length (t : Text) : t.utf8Size = t.utf8.length := by
  rw [utf8Size, foldl_utf8Size, Nat.zero_add]

theorem utf8Size_cons (c : Char) (rest : Text) :
    utf8Size (c :: rest) = c.utf8Size + rest.utf8Size := by
  rw [utf8Size, List.foldl_cons, foldl_utf8Size, utf8Size_eq_length, Nat.zero_add]

end Text

def replacementCharacter : Char := '\uFFFD'

/-- A character of which some bytes have been read: the bits so far, how many bytes are missing, and the range in which the next one must lie. -/
structure OpenCharacter where
  bits : Nat
  missing : Nat
  low : UInt8 := 0x80
  high : UInt8 := 0xBF

/-- The state after the first byte of a character of two or more bytes. The narrower ranges of the second byte keep out overlong forms, surrogates and numbers beyond the last character. -/
def OpenCharacter.first? (b : UInt8) : Option OpenCharacter :=
  let n := b.toNat
  if b < 0xC2 then none
  else if b ≤ 0xDF then some { bits := n - 0xC0, missing := 1 }
  else if b = 0xE0 then some { bits := 0, missing := 2, low := 0xA0 }
  else if b = 0xED then some { bits := n - 0xE0, missing := 2, high := 0x9F }
  else if b ≤ 0xEF then some { bits := n - 0xE0, missing := 2 }
  else if b = 0xF0 then some { bits := 0, missing := 3, low := 0x90 }
  else if b ≤ 0xF3 then some { bits := n - 0xF0, missing := 3 }
  else if b = 0xF4 then some { bits := 4, missing := 3, high := 0x8F }
  else none

/-- Reads a byte when no character is under construction: the text it completes and the character it leaves open. -/
def readFirst (b : UInt8) : Text × Option OpenCharacter :=
  if b < 0x80 then
    ([Char.ofNat b.toNat], none)
  else
    match OpenCharacter.first? b with
    | some part => ([], some part)
    | none => ([replacementCharacter], none)

/-- Reads a byte. One that cannot continue the open character ends it as a replacement character. -/
def readByte : Option OpenCharacter → UInt8 → Text × Option OpenCharacter
  | none, b => readFirst b
  | some part, b =>
    if part.low ≤ b && b ≤ part.high then
      let bits := part.bits * 64 + (b.toNat - 0x80)
      if part.missing ≤ 1 then
        ([Char.ofNat bits], none)
      else
        ([], some { bits, missing := part.missing - 1 })
    else
      let (t, next) := readFirst b
      (replacementCharacter :: t, next)

/-- Reads the bytes, given the character under construction. A character still open at the end is replaced. -/
def decodeFrom : Option OpenCharacter → Bytes → Text
  | none, [] => []
  | some _, [] => [replacementCharacter]
  | state, b :: rest =>
    let (t, next) := readByte state b
    t ++ decodeFrom next rest

def Bytes.decoded (bytes : Bytes) : Text :=
  decodeFrom none bytes

/-- The text whose bytes these are, if there is one. Replacement makes the bytes longer or different, so reading and writing gives them back exactly if nothing was replaced. -/
def Bytes.text? (bytes : Bytes) : Option Text :=
  let t := bytes.decoded
  if t.utf8 = bytes then some t else none

end CommandShell
