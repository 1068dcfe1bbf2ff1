/-
  Sketchwork.Color.Basic — colors as style sheets write them.

  A color is three components in a color space and an opacity, in single precision. It
  remembers how it was written: a name is shown as that name, hexadecimal digits and the
  functions `rgb`, `hsl` and `hwb` as `rgb(…)`. Any other color is shown in its own space: by
  the function of the space where there is one, else by `color(…)`. An opacity that is left
  out stays left out (`withOpacity_of_missing`).
-/
import Sketchwork.Decimal.Shortest

namespace Sketchwork

inductive ColorSpace where
  | srgb | srgbLinear | displayP3 | a98Rgb | prophotoRgb | rec2020
  | xyzD50 | xyzD65
  | lab | lch | oklab | oklch | hsl | hwb
  deriving DecidableEq, Repr

namespace ColorSpace

/-- The name of the space where it is a function of its own or a space of `color(…)`. -/
def text : ColorSpace → String
  | srgb => "srgb"
  | srgbLinear => "srgb-linear"
  | displayP3 => "display-p3"
  | a98Rgb => "a98-rgb"
  | prophotoRgb => "prophoto-rgb"
  | rec2020 => "rec2020"
  | xyzD50 => "xyz-d50"
  | xyzD65 => "xyz-d65"
  | lab => "lab"
  | lch => "lch"
  | oklab => "oklab"
  | oklch => "oklch"
  | hsl => "hsl"
  | hwb => "hwb"

end ColorSpace

/-- How a color was written. -/
inductive ColorForm where
  | name (name : String)
  /-- In hexadecimal digits or with the function of its space. -/
  | function
  /-- By the components in its space, or changed since it was written. -/
  | components
  deriving DecidableEq, Repr

/-- A component; `none` where the color leaves it out. -/
abbrev Component := Option Float32

structure Color where
  space : ColorSpace
  first : Component
  second : Component
  third : Component
  alpha : Component
  form : ColorForm
  deriving Repr, BEq

namespace Color

/-- The opacity; 0 where it is left out. -/
def opacity (c : Color) : Float32 :=
  c.alpha.getD 0.0

/-- The same color with another opacity, no longer as it was written; one whose opacity is
    left out stays as it is. -/
def withOpacity (alpha : Float32) (c : Color) : Color :=
  if c.alpha.isNone then c else { c with alpha := some alpha, form := .components }

theorem withOpacity_of_missing {c : Color} (h : c.alpha = none) (alpha : Float32) :
    c.withOpacity alpha = c := by
  simp [withOpacity, h]

/-- A channel of a color given in bytes. -/
def ofByte (n : Nat) : Float32 :=
  Float32.ofNat n * (1.0 / 255.0)

def ofBytes (r g b a : Nat) (form : ColorForm) : Color :=
  ⟨.srgb, some (ofByte r), some (ofByte g), some (ofByte b), some (ofByte a), form⟩

def min32 (a b : Float32) : Float32 :=
  if b < a then b else a

/-- The nearest number from -1 to 1. -/
def clampToUnit (x : Float32) : Float32 :=
  if x < -1.0 then -1.0 else if 1.0 < x then 1.0 else x

/-- Hue in degrees, saturation and lightness in percent, to red, green and blue. -/
def hslToRgb (h s l : Float32) : Float32 × Float32 × Float32 :=
  let sat := s * 0.01
  let light := l * 0.01
  let a := sat * min32 light (1.0 - light)
  let channel (n : Float32) : Float32 :=
    let x := n + h * (1.0 / 30.0)
    let k := x - 12.0 * (x * (1.0 / 12.0)).floor
    light - a * clampToUnit (min32 (k - 3.0) (9.0 - k))
  (channel 0.0, channel 8.0, channel 4.0)

/-- Hue in degrees, whiteness and blackness in percent, to red, green and blue. -/
def hwbToRgb (h w b : Float32) : Float32 × Float32 × Float32 :=
  let white := w * 0.01
  let black := b * 0.01
  if 1.0 ≤ white + black then
    let gray := white / (white + black)
    (gray, gray, gray)
  else
    let (r, g, b) := hslToRgb h 100.0 50.0
    let mix (x : Float32) : Float32 := white + x * (1.0 - white - black)
    (mix r, mix g, mix b)

/-- The color in red, green and blue, if it was given by hue. -/
def toRgb (c : Color) : Color :=
  let rgb := match c.space with
    | .hsl => some (hslToRgb (c.first.getD 0.0) (c.second.getD 0.0) (c.third.getD 0.0))
    | .hwb => some (hwbToRgb (c.first.getD 0.0) (c.second.getD 0.0) (c.third.getD 0.0))
    | _ => none
  match rgb with
  | some (r, g, b) => ⟨.srgb, some r, some g, some b, c.alpha, c.form⟩
  | none => c

def componentText (scale : Float32) : Component → String
  | none => "none"
  | some x => Decimal.plain32 (x * scale)

/-- `name(a, b, c)`, or `namea(a, b, c, alpha)` for a color that is not opaque. -/
def commaText (name : String) (scale : Float32) (c : Color) : String :=
  let parts := [c.first, c.second, c.third].map (componentText scale)
  if c.opacity < 1.0 then name ++ "a(" ++ ", ".intercalate (parts ++ [componentText 1.0 c.alpha]) ++ ")"
  else name ++ "(" ++ ", ".intercalate parts ++ ")"

/-- `head` and the components with blanks between them, with ` / alpha` for a color that is
    not opaque. -/
def spacedText (head : String) (c : Color) : String :=
  let parts := " ".intercalate ([c.first, c.second, c.third].map (componentText 1.0))
  let alpha := if c.opacity < 1.0 then " / " ++ componentText 1.0 c.alpha else ""
  head ++ parts ++ alpha ++ ")"

/-- The color in its own space. -/
def spaceText (c : Color) : String :=
  match c.space with
  | .hsl => c.commaText "hsl" 1.0
  | .lab | .lch | .oklab | .oklch | .hwb => c.spacedText (c.space.text ++ "(")
  | _ => c.spacedText ("color(" ++ c.space.text ++ " ")

/-- The color as a style sheet writes it. -/
def text (c : Color) : String :=
  match c.form, c.space with
  | .name n, _ => n
  | .function, .srgb | .function, .hsl | .function, .hwb => c.toRgb.commaText "rgb" 255.0
  | _, _ => c.spaceText

end Color

end Sketchwork
