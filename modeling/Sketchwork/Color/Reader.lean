/-
  Sketchwork.Color.Reader — reading colors.

  `#` with 3, 4, 6 or 8 hexadecimal digits; `rgb(…)`, `hsl(…)`, `hwb(…)`, `lab(…)`, `lch(…)`,
  `oklab(…)`, `oklch(…)` and `color(space …)`; or a name. A comma after the first component of
  `rgb` or `hsl` chooses the form with commas throughout. Comments may stand where blanks may.
-/
import Sketchwork.Color.Named
import Sketchwork.Decimal.Reading
import Sketchwork.Geometry.Analysis
import Sketchwork.Text.Blank
import Sketchwork.Text.Hex

namespace Sketchwork

inductive ColorFault where
  | angleDimension
  | angle
  | component
  | identifier
  | space
  | form
  | arguments
  | closingParenthesis
  | spaceIdentifier
  | comma
  | endOfText
  | hexDigits
  deriving DecidableEq, Repr

def ColorFault.message : ColorFault → String
  | angleDimension => "unknown angle dimension"
  | angle => "unknown angle"
  | component => "unknown color component"
  | identifier => "unknown color identifier"
  | space => "unknown color space"
  | form => "unknown color syntax"
  | arguments => "expected arguments"
  | closingParenthesis => "expected closing parenthesis"
  | spaceIdentifier => "expected color space identifier"
  | comma => "expected comma"
  | endOfText => "expected end of string"
  | hexDigits => "wrong number of hex digits"

namespace Color

/-! ## Characters -/

/-- The text behind the next end of a comment. -/
def afterComment? : List Char → Option (List Char)
  | '*' :: '/' :: cs => some cs
  | _ :: cs => afterComment? cs
  | [] => none

/-- The text without the comments it begins with; none where one does not end. -/
def skipComments? (cs : List Char) : Option (List Char) :=
  go cs.length cs
where
  go : Nat → List Char → Option (List Char)
    | 0, cs => some cs
    | fuel + 1, cs =>
      match cs with
      | '/' :: '*' :: rest => (afterComment? rest).bind (go fuel)
      | cs => some cs

def isSpace (c : Char) : Bool :=
  c == ' ' || c == '\t' || c == '\r' || c == '\n'

/-- The text without the blanks and comments it begins with. -/
def skipBlanks (cs : List Char) : List Char :=
  go cs.length cs
where
  go : Nat → List Char → List Char
    | 0, cs => cs
    | fuel + 1, cs =>
      match skipComments? cs with
      | none => cs
      | some rest =>
        match rest with
        | c :: more => if isSpace c then go fuel (more.dropWhile isSpace) else rest
        | [] => rest

/-- What follows a character, if it comes next. -/
def take? (c : Char) (cs : List Char) : Option (List Char) :=
  match skipComments? cs with
  | some (d :: rest) => if d = c then some rest else none
  | _ => none

/-! ## Numbers and identifiers -/

/-- The number that begins a text, and what follows. -/
def number? (cs : List Char) : Option (Float × List Char) :=
  let sign := (cs.take 1).filter fun c => c = '+' || c = '-'
  let (whole, rest) := Decimal.spanDigits (cs.drop sign.length)
  let (places, rest) := match rest with
    | '.' :: tail =>
      let (ds, after) := Decimal.spanDigits tail
      if ds.isEmpty then ([], rest) else ('.' :: ds, after)
    | _ => ([], rest)
  let (exponent, rest) := match rest with
    | mark :: tail =>
      if mark = 'e' || mark = 'E' then
        let sign := (tail.take 1).filter fun c => c = '+' || c = '-'
        let (ds, after) := Decimal.spanDigits (tail.drop sign.length)
        if ds.isEmpty then ([], rest) else (mark :: sign ++ ds, after)
      else ([], rest)
    | [] => ([], [])
  if whole.isEmpty && places.isEmpty then none
  else (Decimal.read? (sign ++ whole ++ places ++ exponent)).map fun x => (x, rest)

/-- The characters of an identifier; digits may not come first, nor after a leading hyphen. -/
def spanIdentifier (cs : List Char) : List Char × List Char :=
  let part (c : Char) : Bool := c.isAlpha || c == '_' || c == '-'
  let head := (cs.take 1).filter part
  let second := (cs.drop head.length).take 1 |>.filter fun c => part c || (head != ['-'] && c.isDigit)
  if head.isEmpty || second.isEmpty then (head, cs.drop head.length)
  else
    let tail := cs.drop 2
    let more (c : Char) : Bool := part c || c.isDigit
    (head ++ second ++ tail.takeWhile more, tail.dropWhile more)

/-- The identifier that begins a text, in lower case; hyphens alone are none. -/
def identifier? (cs : List Char) : Option (String × List Char) :=
  let (word, rest) := spanIdentifier cs
  if (word.take 2).all (· == '-') then none else some (String.ofList (word.map Char.toLower), rest)

/-- A component as written. -/
inductive Written where
  | number (x : Float)
  | percent (x : Float)
  | dimension (x : Float) (unit : String)
  | symbol (name : String)
  | nothing
  deriving Repr

def written (cs : List Char) : Written × List Char :=
  let cs := skipBlanks cs
  match skipComments? cs with
  | none => match identifier? cs with
    | some (name, rest) => (.symbol name, rest)
    | none => (.nothing, cs)
  | some cs =>
    match number? cs with
    | some (x, '%' :: rest) => (.percent x, rest)
    | some (x, rest) => match identifier? rest with
      | some (unit, rest) => (.dimension x unit, rest)
      | none => (.number x, rest)
    | none => match identifier? cs with
      | some (name, rest) => (.symbol name, rest)
      | none => (.nothing, cs)

/-! ## Components -/

abbrev Scaled := Option Float

/-- A component, with the scales of numbers and of percentages. -/
def component (scale percentScale : Float) (cs : List Char) : Except ColorFault (Scaled × List Char) :=
  match written cs with
  | (.number x, rest) => .ok (some (x * scale), rest)
  | (.percent x, rest) => .ok (some (x * percentScale), rest)
  | (.symbol name, rest) => if name == "none" then .ok (none, rest) else .error .component
  | _ => .error .component

/-- An angle in degrees. -/
def angleOf (cs : List Char) : Except ColorFault (Scaled × List Char) :=
  match written cs with
  | (.number x, rest) => .ok (some x, rest)
  | (.symbol name, rest) => if name == "none" then .ok (none, rest) else .error .angle
  | (.dimension x unit, rest) =>
    match unit with
    | "deg" => .ok (some x, rest)
    | "rad" => .ok (some (x * (180.0 / Real64.pi)), rest)
    | "grad" => .ok (some (x * 0.9), rest)
    | "turn" => .ok (some (x * 360.0), rest)
    | _ => .error .angleDimension
  | _ => .error .angle

def clamp (low high x : Float) : Float :=
  if x < low then low else if high < x then high else x

/-- The opacity behind its separator, 1 where there is none. -/
def alphaOf (commas : Bool) (cs : List Char) : Except ColorFault (Scaled × List Char) :=
  match take? (if commas then ',' else '/') (skipBlanks cs) with
  | none => .ok (some 1.0, skipBlanks cs)
  | some rest => do
    let (a, rest) ← component 1.0 0.01 rest
    return (a.map (clamp 0.0 1.0), rest)

/-- The comma between components, where commas are used. -/
def separator (commas : Bool) (cs : List Char) : Except ColorFault (List Char) :=
  let cs := skipBlanks cs
  if commas then (match take? ',' cs with
    | some rest => .ok rest
    | none => .error .comma)
  else .ok cs

def closing (cs : List Char) : Except ColorFault (List Char) :=
  match take? ')' (skipBlanks cs) with
  | some rest => .ok rest
  | none => .error .closingParenthesis

def ofScaled (space : ColorSpace) (form : ColorForm) (a b c alpha : Scaled) : Color :=
  ⟨space, a.map Float.toFloat32, b.map Float.toFloat32, c.map Float.toFloat32, alpha.map Float.toFloat32, form⟩

/-! ## Functions -/

def rgbArguments (cs : List Char) : Except ColorFault (Color × List Char) := do
  let channel (cs : List Char) : Except ColorFault (Scaled × List Char) := do
    let (x, cs) ← component (1.0 / 255.0) 0.01 cs
    return (x.map (clamp 0.0 1.0), cs)
  let (r, cs) ← channel cs
  let cs := skipBlanks cs
  let (commas, cs) := match take? ',' cs with
    | some rest => (true, rest)
    | none => (false, cs)
  let (g, cs) ← channel cs
  let cs ← separator commas cs
  let (b, cs) ← channel cs
  let (alpha, cs) ← alphaOf commas cs
  let cs ← closing cs
  return (ofScaled .srgb .function r g b alpha, cs)

def hslArguments (cs : List Char) : Except ColorFault (Color × List Char) := do
  let (h, cs) ← angleOf cs
  let (commas, cs) := match take? ',' cs with
    | some rest => (true, rest)
    | none => (false, cs)
  let (s, cs) ← component 1.0 1.0 cs
  let cs ← separator commas cs
  let (l, cs) ← component 1.0 1.0 cs
  let (alpha, cs) ← alphaOf commas cs
  let cs ← closing cs
  return (ofScaled .hsl .function h (s.map (Real64.max · 0.0)) l alpha, cs)

def hwbArguments (cs : List Char) : Except ColorFault (Color × List Char) := do
  let (h, cs) ← angleOf cs
  let (w, cs) ← component 1.0 1.0 cs
  let (b, cs) ← component 1.0 1.0 cs
  let (alpha, cs) ← alphaOf false cs
  let cs ← closing cs
  return (ofScaled .hwb .function h w b alpha, cs)

/-- Lightness up to `most` and two components with the given scale of percentages. -/
def labArguments (space : ColorSpace) (most percent : Float) (cs : List Char) :
    Except ColorFault (Color × List Char) := do
  let (l, cs) ← component 1.0 (0.01 * most) cs
  let (a, cs) ← component 1.0 percent cs
  let (b, cs) ← component 1.0 percent cs
  let (alpha, cs) ← alphaOf false cs
  let cs ← closing cs
  return (ofScaled space .function (l.map (clamp 0.0 most)) a b alpha, cs)

/-- Lightness up to `most`, chroma and hue. -/
def lchArguments (space : ColorSpace) (most percent : Float) (cs : List Char) :
    Except ColorFault (Color × List Char) := do
  let (l, cs) ← component 1.0 (0.01 * most) cs
  let (c, cs) ← component 1.0 percent cs
  let (h, cs) ← angleOf cs
  let (alpha, cs) ← alphaOf false cs
  let cs ← closing cs
  return (ofScaled space .function (l.map (clamp 0.0 most)) (c.map (Real64.max · 0.0)) h alpha, cs)

def spaceOf? (name : String) : Option ColorSpace :=
  match name with
  | "srgb" => some .srgb
  | "srgb-linear" => some .srgbLinear
  | "display-p3" => some .displayP3
  | "a98-rgb" => some .a98Rgb
  | "prophoto-rgb" => some .prophotoRgb
  | "rec2020" => some .rec2020
  | "xyz-d50" => some .xyzD50
  | "xyz" | "xyz-d65" => some .xyzD65
  | _ => none

def colorArguments (cs : List Char) : Except ColorFault (Color × List Char) :=
  match identifier? (skipBlanks cs) with
  | none => .error .spaceIdentifier
  | some (name, cs) =>
    match spaceOf? name with
    | none => .error .space
    | some space => do
      let (a, cs) ← component 1.0 0.01 cs
      let (b, cs) ← component 1.0 0.01 cs
      let (c, cs) ← component 1.0 0.01 cs
      let (alpha, cs) ← alphaOf false cs
      let cs ← closing cs
      return (ofScaled space .components a b c alpha, cs)

/-- The reader of a function's arguments. -/
def function? (name : String) : Option (List Char → Except ColorFault (Color × List Char)) :=
  match name with
  | "rgb" | "rgba" => some rgbArguments
  | "lab" => some (labArguments .lab 100.0 1.25)
  | "lch" => some (lchArguments .lch 100.0 1.25)
  | "oklab" => some (labArguments .oklab 1.0 0.004)
  | "oklch" => some (lchArguments .oklch 1.0 0.004)
  | "hsl" | "hsla" => some hslArguments
  | "hwb" => some hwbArguments
  | "color" => some colorArguments
  | _ => none

/-! ## Hexadecimal digits -/

/-- The color of up to eight digits, and what follows them. -/
def hex (cs : List Char) : Except ColorFault (Color × List Char) :=
  let ds := (cs.take 8).takeWhile Text.isHexDigit
  let rest := cs.drop ds.length
  match ds.filterMap Text.hexValue? with
  | [r, g, b] => .ok (ofBytes (17 * r) (17 * g) (17 * b) 255 .function, rest)
  | [r, g, b, a] => .ok (ofBytes (17 * r) (17 * g) (17 * b) (17 * a) .function, rest)
  | [r, r', g, g', b, b'] =>
    .ok (ofBytes (16 * r + r') (16 * g + g') (16 * b + b') 255 .function, rest)
  | [r, r', g, g', b, b', a, a'] =>
    .ok (ofBytes (16 * r + r') (16 * g + g') (16 * b + b') (16 * a + a') .function, rest)
  | _ => .error .hexDigits

/-- The color that begins a text, and what follows. -/
def start (cs : List Char) : Except ColorFault (Color × List Char) :=
  match cs with
  | '#' :: cs => hex cs
  | cs =>
    match identifier? cs with
    | none => .error .form
    | some (name, rest) =>
      match function? name with
      | some arguments => (match rest with
        | '(' :: rest => arguments rest
        | _ => .error .arguments)
      | none => (match ofName? name with
        | some c => .ok (c, rest)
        | none => .error .identifier)

/-- The color that a whole text is. -/
def read (text : String) : Except ColorFault Color := do
  let (c, rest) ← start (Text.trim text.toList)
  if rest.isEmpty then return c else .error .endOfText

/-- Why a text is no color. -/
def rejection (text : String) (fault : ColorFault) : String :=
  "invalid color `" ++ text ++ "`: " ++ fault.message

end Color

end Sketchwork
