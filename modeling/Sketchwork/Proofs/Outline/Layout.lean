/-
  Sketchwork.Proofs.Outline.Layout — every way to write a tree down as a document.

  A layout is a tree with all that a writer is free to choose: how scalars are spelled, where
  spaces stand between the brackets of a collection on one line, whether a collection is on one
  line or a block, how much deeper a block is than what it belongs to, and whether it begins
  beside the dash or on a line of its own. `literal` is the tree that a layout lays out and
  `lines` are its lines, as indentations with what is written behind them.

  Around the lines there may be blank lines and comments, a line may end in spaces and a
  comment, and lines end as they do on any system (`Spells`).
-/
import Sketchwork.Document.Reader

namespace Sketchwork.Layout

def spaces (n : Nat) : List Char :=
  List.replicate n ' '

/-! ## Scalars -/

structure Digits where
  chars : List Char
  isDigit : ∀ c ∈ chars, c.isDigit = true

inductive Sign where
  | none | plus | minus

def Sign.text : Sign → List Char
  | none => []
  | plus => ['+']
  | minus => ['-']

def Sign.negative : Sign → Bool
  | minus => true
  | _ => false

structure Exponent where
  mark : Char
  sign : Sign
  size : Digits
  isMark : mark = 'e' ∨ mark = 'E'
  size_ne_nil : size.chars ≠ []

namespace Exponent

def text (e : Exponent) : List Char :=
  e.mark :: (e.sign.text ++ e.size.chars)

def value (e : Exponent) : Int :=
  if e.sign.negative then -(Decimal.ofDigits e.size.chars : Int) else Decimal.ofDigits e.size.chars

end Exponent

/-- A decimal number, with a digit before or behind its point. -/
structure Numeral where
  sign : Sign
  whole : Digits
  /-- The digits behind the point, if there is a point. -/
  places : Option Digits
  exponent : Option Exponent
  digit : whole.chars ≠ [] ∨ ∃ ds, places = some ds ∧ ds.chars ≠ []

namespace Numeral

/-- The point and the digits behind it. -/
def fraction (n : Numeral) : List Char :=
  n.places.elim [] fun ds => '.' :: ds.chars

def placed (n : Numeral) : List Char :=
  n.places.elim [] Digits.chars

def text (n : Numeral) : List Char :=
  n.sign.text ++ (n.whole.chars ++ (n.fraction ++ n.exponent.elim [] Exponent.text))

def literal (n : Numeral) : Decimal.Literal :=
  .finite n.sign.negative (Decimal.ofDigits (n.whole.chars ++ n.placed)) (n.exponent.elim 0 Exponent.value - n.placed.length)

/-- The double that is nearest. -/
def value (n : Numeral) : Float :=
  n.literal.toFloat

end Numeral

/-- What may stand behind a backslash, and for what. -/
inductive Escape where
  | newline | return_ | tab | zero | backslash | quote | apostrophe | slash

namespace Escape

def mark : Escape → Char
  | newline => 'n'
  | return_ => 'r'
  | tab => 't'
  | zero => '0'
  | backslash => '\\'
  | quote => '"'
  | apostrophe => '\''
  | slash => '/'

def value : Escape → Char
  | newline => '\n'
  | return_ => '\r'
  | tab => '\t'
  | zero => '\x00'
  | backslash => '\\'
  | quote => '"'
  | apostrophe => '\''
  | slash => '/'

end Escape

/-- A character between double quotes, as it is or escaped. -/
inductive Spelled where
  | raw (c : Char) (quote : c ≠ '"') (backslash : c ≠ '\\') (newline : c ≠ '\n')
  | escaped (e : Escape)

namespace Spelled

def text : Spelled → List Char
  | raw c _ _ _ => [c]
  | escaped e => ['\\', e.mark]

def value : Spelled → Char
  | raw c _ _ _ => c
  | escaped e => e.value

end Spelled

/-- A text between double quotes. -/
structure Quoted where
  chars : List Spelled

namespace Quoted

def text (q : Quoted) : List Char :=
  '"' :: (q.chars.flatMap Spelled.text ++ ['"'])

def value (q : Quoted) : String :=
  String.ofList (q.chars.map Spelled.value)

end Quoted

def nullWords : List (List Char) :=
  [['~'], ['n', 'u', 'l', 'l'], ['N', 'u', 'l', 'l'], ['N', 'U', 'L', 'L']]

def boolWords : Bool → List (List Char)
  | true => [['t', 'r', 'u', 'e'], ['T', 'r', 'u', 'e'], ['T', 'R', 'U', 'E']]
  | false => [['f', 'a', 'l', 's', 'e'], ['F', 'a', 'l', 's', 'e'], ['F', 'A', 'L', 'S', 'E']]

inductive Scalar where
  | null (word : List Char) (h : word ∈ nullWords)
  | bool (value : Bool) (word : List Char) (h : word ∈ boolWords value)
  | number (numeral : Numeral)
  | text (quoted : Quoted)

namespace Scalar

def chars : Scalar → List Char
  | null word _ => word
  | bool _ word _ => word
  | number n => n.text
  | text q => q.text

def literal : Scalar → Literal
  | null _ _ => .null
  | bool b _ _ => .bool b
  | number n => .number n.value
  | text q => .text q.value

end Scalar

/-! ## Values on one line -/

mutual

inductive Inline where
  | scalar (s : Scalar)
  | emptyList (gap : Nat)
  | list (items : Items)
  | emptyMap (gap : Nat)
  | map (fields : Fields)

/-- Items with the spaces before and behind each. -/
inductive Items where
  | one (before : Nat) (item : Inline) (after : Nat)
  | cons (before : Nat) (item : Inline) (after : Nat) (more : Items)

/-- Entries with the spaces before the key, around the colon and behind the value. -/
inductive Fields where
  | one (before : Nat) (key : Quoted) (left right : Nat) (value : Inline) (after : Nat)
  | cons (before : Nat) (key : Quoted) (left right : Nat) (value : Inline) (after : Nat) (more : Fields)

end

mutual

def Inline.text : Inline → List Char
  | .scalar s => s.chars
  | .emptyList gap => '[' :: (spaces gap ++ [']'])
  | .list items => '[' :: (items.text ++ [']'])
  | .emptyMap gap => '\x7b' :: (spaces gap ++ ['\x7d'])
  | .map fields => '\x7b' :: (fields.text ++ ['\x7d'])

def Items.text : Items → List Char
  | .one before item after => spaces before ++ (item.text ++ spaces after)
  | .cons before item after more => spaces before ++ (item.text ++ (spaces after ++ ',' :: more.text))

def Fields.text : Fields → List Char
  | .one before key left right value after =>
    spaces before ++ (key.text ++ (spaces left ++ ':' :: (spaces right ++ (value.text ++ spaces after))))
  | .cons before key left right value after more =>
    spaces before ++ (key.text ++ (spaces left ++ ':' :: (spaces right ++ (value.text ++ (spaces after ++ ',' :: more.text)))))

end

mutual

def Inline.literal : Inline → Literal
  | .scalar s => s.literal
  | .emptyList _ => .list []
  | .list items => .list items.literals
  | .emptyMap _ => .map []
  | .map fields => .map fields.literals

def Items.literals : Items → List Literal
  | .one _ item _ => [item.literal]
  | .cons _ item _ more => item.literal :: more.literals

def Fields.literals : Fields → List (String × Literal)
  | .one _ key _ _ value _ => [(key.value, value.literal)]
  | .cons _ key _ _ value _ more => (key.value, value.literal) :: more.literals

end

/-! ## Blocks -/

/-- An identifier, with or without the sigil and the suffix of a sketch. -/
structure Key where
  sigil : Bool
  name : List Char
  sketch : Bool
  isIdentifier : Document.isIdentifier name = true

namespace Key

def text (k : Key) : List Char :=
  (if k.sigil then ['$'] else []) ++ (k.name ++ if k.sketch then [':', 's', 'k', 'e', 't', 'c', 'h'] else [])

def value (k : Key) : String :=
  String.ofList k.text

end Key

mutual

inductive Block where
  | inline (value : Inline)
  | seq (items : Bullets)
  | map (entries : Entries)

inductive Bullets where
  | one (item : Bullet)
  | cons (item : Bullet) (more : Bullets)

/-- A dash with a block `gap + 1` spaces behind it, or on a line below that is `step + 1` deeper. -/
inductive Bullet where
  | beside (gap : Nat) (block : Block)
  | deeper (step : Nat) (block : Block)

inductive Entries where
  | one (entry : Entry)
  | cons (entry : Entry) (more : Entries)

/-- A key with a value behind it, a deeper block below it, or a list below it at its own column. -/
inductive Entry where
  | inline (key : Key) (gap : Nat) (value : Inline)
  | deeper (key : Key) (step : Nat) (block : Block)
  | list (key : Key) (items : Bullets)

end

/-- What a line holds behind its indentation. -/
structure Content where
  indent : Nat
  text : List Char

mutual

/-- The first line of a block, without its indentation. -/
def Block.first : Block → List Char
  | .inline value => value.text
  | .seq items => items.first
  | .map entries => entries.first

def Bullets.first : Bullets → List Char
  | .one item => item.first
  | .cons item _ => item.first

def Bullet.first : Bullet → List Char
  | .beside gap block => '-' :: (spaces (gap + 1) ++ block.first)
  | .deeper _ _ => ['-']

def Entries.first : Entries → List Char
  | .one entry => entry.first
  | .cons entry _ => entry.first

def Entry.first : Entry → List Char
  | .inline key gap value => key.text ++ ':' :: (spaces (gap + 1) ++ value.text)
  | .deeper key _ _ => key.text ++ [':']
  | .list key _ => key.text ++ [':']

end

mutual

/-- The lines after the first, when the block is at column `i`. -/
def Block.rest (i : Nat) : Block → List Content
  | .inline _ => []
  | .seq items => items.rest i
  | .map entries => entries.rest i

def Bullets.rest (i : Nat) : Bullets → List Content
  | .one item => item.rest i
  | .cons item more => item.rest i ++ ⟨i, more.first⟩ :: more.rest i

def Bullet.rest (i : Nat) : Bullet → List Content
  | .beside gap block => block.rest (i + gap + 2)
  | .deeper step block => ⟨i + step + 1, block.first⟩ :: block.rest (i + step + 1)

def Entries.rest (i : Nat) : Entries → List Content
  | .one entry => entry.rest i
  | .cons entry more => entry.rest i ++ ⟨i, more.first⟩ :: more.rest i

def Entry.rest (i : Nat) : Entry → List Content
  | .inline _ _ _ => []
  | .deeper _ step block => ⟨i + step + 1, block.first⟩ :: block.rest (i + step + 1)
  | .list _ items => ⟨i, items.first⟩ :: items.rest i

end

mutual

def Block.literal : Block → Literal
  | .inline value => value.literal
  | .seq items => .list items.literals
  | .map entries => .map entries.literals

def Bullets.literals : Bullets → List Literal
  | .one item => [item.literal]
  | .cons item more => item.literal :: more.literals

def Bullet.literal : Bullet → Literal
  | .beside _ block => block.literal
  | .deeper _ block => block.literal

def Entries.literals : Entries → List (String × Literal)
  | .one entry => [(entry.key.value, entry.literal)]
  | .cons entry more => (entry.key.value, entry.literal) :: more.literals

def Entry.literal : Entry → Literal
  | .inline _ _ value => value.literal
  | .deeper _ _ block => block.literal
  | .list _ items => .list items.literals

def Entry.key : Entry → Key
  | .inline key _ _ => key
  | .deeper key _ _ => key
  | .list key _ => key

end

/-- The lines of a block at column `i`. -/
def Block.lines (i : Nat) (b : Block) : List Content :=
  ⟨i, b.first⟩ :: b.rest i

/-! ## Texts -/

inductive Ending : List Char → Prop
  | lf : Ending ['\n']
  | crlf : Ending ['\r', '\n']

/-- A line without content: spaces, and perhaps a comment. -/
inductive Idle : List Char → Prop
  | blank (n : Nat) : Idle (spaces n)
  | comment (n : Nat) {remark : List Char} (h : '\n' ∉ remark) : Idle (spaces n ++ '#' :: remark)

/-- What may follow the content of a line: spaces, and perhaps a comment behind at least one. -/
inductive Trailer : List Char → Prop
  | blank (n : Nat) : Trailer (spaces n)
  | comment (n : Nat) {remark : List Char} (h : '\n' ∉ remark) : Trailer (spaces (n + 1) ++ '#' :: remark)

/-- A text that holds these lines and no others with content. The last line needs no ending. -/
inductive Spells : List Content → List Char → Prop
  | idleEnd {s : List Char} (hs : Idle s) : Spells [] s
  | lineEnd {l : Content} {s : List Char} (hs : Trailer s) : Spells [l] (spaces l.indent ++ (l.text ++ s))
  | idle {ls : List Content} {s e r : List Char} (hs : Idle s) (he : Ending e) (h : Spells ls r) :
      Spells ls (s ++ (e ++ r))
  | line {l : Content} {ls : List Content} {s e r : List Char} (hs : Trailer s) (he : Ending e) (h : Spells ls r) :
      Spells (l :: ls) (spaces l.indent ++ (l.text ++ (s ++ (e ++ r))))

end Sketchwork.Layout
