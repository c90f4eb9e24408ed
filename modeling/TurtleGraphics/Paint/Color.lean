import TurtleGraphics.Number.Arithmetic
import TurtleGraphics.Number.Plain
import TurtleGraphics.Paint.Keystream
import TurtleGraphics.Text.Blank

/-!
# TurtleGraphics.Paint.Color

Colors: by channels, by hue, or invisible. A color is written in a program as a name, as three or six
hexadecimal digits with or without `#`, or as a number, which is a hue as a fraction of the full
circle.
-/

namespace TurtleGraphics

inductive Color where
  | rgb (r g b : UInt8)
  /-- Hue in degrees, saturation and lightness in percent. -/
  | hsl (h s l : Float)
  | invisible
  deriving DecidableEq

namespace Color

def white : Color := rgb 255 255 255

def isVisible : Color → Bool
  | invisible => false
  | _ => true

/-- The pure color of a hue. -/
def ofHue (fraction : Float) : Color :=
  hsl (Number.wrap fraction 1 * 360) 100 50

/-- A random hue. -/
def random (stream : Keystream) : Color × Keystream :=
  let (fraction, stream) := stream.nextUnit
  (ofHue fraction, stream)

/-! ## Reading -/

def ofName? : String → Option Color
  | "invisible" => some invisible
  | "black" => some (rgb 0 0 0)
  | "white" => some (rgb 255 255 255)
  | "red" => some (rgb 255 0 0)
  | "green" => some (rgb 0 128 0)
  | "lime" => some (rgb 0 255 0)
  | "blue" => some (rgb 0 0 255)
  | "yellow" => some (rgb 255 255 0)
  | "cyan" => some (rgb 0 255 255)
  | "magenta" => some (rgb 255 0 255)
  | "orange" => some (rgb 255 165 0)
  | "purple" => some (rgb 128 0 128)
  | "pink" => some (rgb 255 192 203)
  | "brown" => some (rgb 165 42 42)
  | "gray" => some (rgb 128 128 128)
  | "grey" => some (rgb 128 128 128)
  | "silver" => some (rgb 192 192 192)
  | "gold" => some (rgb 255 215 0)
  | "navy" => some (rgb 0 0 128)
  | "teal" => some (rgb 0 128 128)
  | "olive" => some (rgb 128 128 0)
  | "maroon" => some (rgb 128 0 0)
  | "violet" => some (rgb 238 130 238)
  | _ => none

/-- The value of a hexadecimal digit; letters in lower case. -/
def hexDigit? (c : Char) : Option UInt8 :=
  if c.isDigit then some (UInt8.ofNat (c.toNat - '0'.toNat))
  else if 'a' ≤ c && c ≤ 'f' then some (UInt8.ofNat (c.toNat - 'a'.toNat + 10))
  else none

/-- Three digits give each channel twice the same digit, six give two digits a channel. -/
def ofHexDigits? (cs : List Char) : Option Color :=
  match cs.mapM hexDigit? with
  | some [r, g, b] => some (rgb (17 * r) (17 * g) (17 * b))
  | some [r, r', g, g', b, b'] => some (rgb (16 * r + r') (16 * g + g') (16 * b + b'))
  | _ => none

def lowercase (cs : List Char) : List Char :=
  cs.map Char.toLower

/-- Reads a name or hexadecimal digits, in either case. -/
def parse? (text : String) : Option Color :=
  let cs := lowercase (Text.trim text.toList)
  match ofName? (String.ofList cs) with
  | some color => some color
  | none =>
    match cs with
    | '#' :: digits => ofHexDigits? digits
    | digits => ofHexDigits? digits

/-- Whether a word asks for a random color. -/
def isRandomWord (text : String) : Bool :=
  lowercase text.toList == ['r', 'a', 'n', 'd', 'o', 'm']

/-- Whether a word stands for a color. -/
def isWord (text : String) : Bool :=
  isRandomWord text || (parse? text).isSome

/-! ## Channels -/

/-- The nearest channel value, with what is out of range moved to its ends. -/
def channel (x : Float) : UInt8 :=
  (x * 255).round.toUInt8

/-- The channels of a hue in degrees with saturation and lightness between 0 and 1. The chroma goes to
the main channel of the sector of 60 degrees, the middle value to its neighbour, and all are raised to
the lightness. -/
def channelsOfHsl (h s l : Float) : UInt8 × UInt8 × UInt8 :=
  let chroma := (1 - (2 * l - 1).abs) * s
  let sector := Number.wrap h 360 / 60
  let middle := chroma * (1 - (Number.remainder sector 2 - 1).abs)
  let (r, g, b) : Float × Float × Float :=
    match sector.toUInt32.toNat with
    | 0 => (chroma, middle, 0)
    | 1 => (middle, chroma, 0)
    | 2 => (0, chroma, middle)
    | 3 => (0, middle, chroma)
    | 4 => (middle, 0, chroma)
    | _ => (chroma, 0, middle)
  let lift := l - chroma / 2
  (channel (r + lift), channel (g + lift), channel (b + lift))

def channels? : Color → Option (UInt8 × UInt8 × UInt8)
  | rgb r g b => some (r, g, b)
  | hsl h s l => some (channelsOfHsl h (s / 100) (l / 100))
  | invisible => none

/-! ## Writing -/

/-- Two hexadecimal digits. -/
def hexPair (n : UInt8) : String :=
  String.ofList [Nat.digitChar (n.toNat / 16), Nat.digitChar (n.toNat % 16)]

/-- The color as style sheets write it; the parts of a hue are rounded to whole numbers. -/
def css : Color → String
  | rgb r g b => "#" ++ hexPair r ++ hexPair g ++ hexPair b
  | hsl h s l =>
    "hsl(" ++ Number.plain h.round ++ ", " ++ Number.plain s.round ++ "%, " ++
      Number.plain l.round ++ "%)"
  | invisible => "invisible"

end Color
end TurtleGraphics
