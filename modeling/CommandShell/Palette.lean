import CommandShell.Text.Basic

/-!
# Colours

Painted text stands between escape sequences: one for the colour, one more if it is bold, and one behind it that ends both. Whether to paint at all is decided by the environment. A wish for no colour comes first, then what is known of the terminal, then a wish for colour.
-/

namespace CommandShell

inductive Colour where
  | red
  | green
  | yellow
  | cyan
  deriving DecidableEq, Repr

structure Style where
  colour : Colour
  isBold : Bool := false
  deriving DecidableEq, Repr

/-- Whether text is painted. -/
inductive Palette where
  | plain
  | coloured
  deriving DecidableEq, Repr

namespace Colour

def code : Colour → Text
  | red => ['3', '1']
  | green => ['3', '2']
  | yellow => ['3', '3']
  | cyan => ['3', '6']

end Colour

def escape (code : Text) : Text :=
  '\x1b' :: '[' :: code ++ ['m']

def Style.paint (style : Style) (t : Text) : Text :=
  escape style.colour.code ++ (if style.isBold then escape ['1'] else []) ++ t ++ escape ['0']

namespace Palette

def errorStyle : Style := { colour := .red, isBold := true }

/-- A message as it is shown for an error. -/
def error : Palette → Text → Text
  | plain, message => message
  | coloured, message => errorStyle.paint message

/-- The small letters for a character, of which only those in ASCII matter. Besides the ASCII capitals, the Kelvin sign and the dotted capital I have small letters there. -/
def small (c : Char) : Text :=
  if 'A'.val ≤ c.val && c.val ≤ 'Z'.val then [Char.ofNat (c.toNat + 32)]
  else if c = '\u212A' then ['k']
  else if c = '\u0130' then ['i', '\u0307']
  else [c]

/-- Any of these in the name of a terminal, in small letters, means that it has colours. -/
def terminals : List Text :=
  ["xterm-truecolor", "konsole", "tmux", "screen-truecolor", "alacritty", "kitty", "terminator",
    "terminology", "eterm", "rxvt-unicode", "xterm-ghostty", "vte", "termious", "256color", "256",
    "color", "ansi", "xterm", "screen"].map String.toList

/-- Any of these in the depth of colour means that there are colours. -/
def depths : List Text :=
  ["truecolor", "24bit"].map String.toList

/-- Terminal programs that have colours. -/
def terminalPrograms : List Text :=
  ["iTerm.app", "Apple_Terminal", "Hyper"].map String.toList

/-- The palette that the values of the environment ask for. -/
def ofEnvironment (valueOf : Text → Option Text) : Palette :=
  let asks (name : String) (accepts : Text → Bool) : Bool := (valueOf name.toList).any accepts
  if asks "NO_COLOR" fun _ => true then plain
  else if asks "CLICOLOR" fun value => value == ['0'] then plain
  else if asks "COLORTERM" fun value => depths.any fun depth => Text.holds depth value then coloured
  else if asks "TERM" fun value => terminals.any fun name => Text.holds name (value.flatMap small)
    then coloured
  else if asks "TERM_PROGRAM" fun value => terminalPrograms.contains value then coloured
  else if asks "CLICOLOR_FORCE" fun value => value == ['1'] then coloured
  else plain

end Palette

end CommandShell
