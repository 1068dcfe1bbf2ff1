/-
  Sketchwork.Diagnostic — what can be wrong with the text of a document.

  A diagnostic is a fault and the place it is at. Its code, message, labels and help
  are functions of those two, so a reader of documents only names the fault. A text is
  rejected when a fault of error severity was found; warnings travel with the errors.
-/
import Sketchwork.Expr.Token

namespace Sketchwork

/-- `e0__` layout, `e1__` flow and block entries, `e2__` document structure, `e3__`
    expressions. -/
inductive Code where
  | e001 | e002 | e003 | e004 | e005
  | e100 | e101 | e102 | e103
  | e200 | e201 | e202 | e203 | e204 | e205 | e206
  | e300 | e301 | e302 | e303 | e304
  deriving DecidableEq, Repr

namespace Code

def text : Code → String
  | e001 => "E001" | e002 => "E002" | e003 => "E003" | e004 => "E004" | e005 => "E005"
  | e100 => "E100" | e101 => "E101" | e102 => "E102" | e103 => "E103"
  | e200 => "E200" | e201 => "E201" | e202 => "E202" | e203 => "E203" | e204 => "E204"
  | e205 => "E205" | e206 => "E206"
  | e300 => "E300" | e301 => "E301" | e302 => "E302" | e303 => "E303" | e304 => "E304"

def description : Code → String
  | e001 => "unterminated quoted scalar"
  | e002 => "unexpected character"
  | e003 => "invalid escape sequence"
  | e004 => "tab in indentation"
  | e005 => "unexpected indentation"
  | e100 => "unexpected token"
  | e101 => "unclosed flow collection"
  | e102 => "duplicate mapping key"
  | e103 => "expected mapping entry"
  | e200 => "missing sketch section"
  | e201 => "unknown section"
  | e202 => "invalid parameter"
  | e203 => "invalid reference"
  | e204 => "invalid step"
  | e205 => "document is not a mapping"
  | e206 => "shadowed name"
  | e300 => "unexpected character in expression"
  | e301 => "unterminated string in expression"
  | e302 => "unexpected token in expression"
  | e303 => "incomplete expression"
  | e304 => "invalid number"

end Code

inductive Severity where
  | error
  | warning
  deriving DecidableEq, Repr

/-- What an expression may go on with where it was cut off. -/
inductive Expected where
  | expression
  | identifier
  | closingDelimiter
  | closingParen
  | closingBracket
  | colon
  deriving DecidableEq, Repr

def Expected.text : Expected → String
  | .expression => "expression"
  | .identifier => "identifier"
  | .closingDelimiter => "closing delimiter"
  | .closingParen => "`)`"
  | .closingBracket => "`]`"
  | .colon => "`:`"

/-- The two kinds of declared names. -/
inductive Declared where
  | parameter
  | reference
  deriving DecidableEq, Repr

inductive Fault where
  /-- A quoted scalar that does not close on its line. -/
  | openScalar (quote : Char)
  /-- A line value that begins with no value. -/
  | noValue
  | scalarEscape
  | tabIndentation
  | strayIndentation
  | flowSeparator
  | flowColon
  | afterValue
  | openCollection
  | duplicateKey (key : String) (first : Span)
  | notAnEntry
  | noSketch
  | unknownSection (name : String)
  | parametersShape
  | parameterShape
  | referencesShape
  | referenceShape
  | invalidName (kind : Declared) (name : String)
  | chainShape
  | stepShape
  | notSections
  | shadowedName (name : String) (first : Span)
  | strayCharacter
  | textEscape
  | openText
  | gluedNumber
  | unexpectedToken (token : Token) (expected : Expected)
  | tokenAfterEnd (token : Token)
  | endedEarly (expected : Expected)
  deriving Repr

namespace Fault

def code : Fault → Code
  | openScalar _ => .e001
  | noValue => .e002
  | scalarEscape | textEscape => .e003
  | tabIndentation => .e004
  | strayIndentation => .e005
  | flowSeparator | flowColon | afterValue => .e100
  | openCollection => .e101
  | duplicateKey .. => .e102
  | notAnEntry => .e103
  | noSketch => .e200
  | unknownSection _ => .e201
  | parametersShape | parameterShape | invalidName .parameter _ => .e202
  | referencesShape | referenceShape | invalidName .reference _ => .e203
  | chainShape | stepShape => .e204
  | notSections => .e205
  | shadowedName .. => .e206
  | strayCharacter => .e300
  | openText => .e301
  | unexpectedToken .. | tokenAfterEnd _ => .e302
  | endedEarly _ => .e303
  | gluedNumber => .e304

/-- A name declared twice is allowed, all else is not. -/
def severity : Fault → Severity
  | shadowedName .. => .warning
  | _ => .error

def message : Fault → String
  | openScalar _ => "unterminated quoted scalar"
  | noValue => "unexpected character"
  | scalarEscape | textEscape => "invalid escape sequence"
  | tabIndentation => "tab character in indentation"
  | strayIndentation => "unexpected indentation"
  | flowSeparator => "unexpected character in flow collection"
  | flowColon => "expected `:` after flow mapping key"
  | afterValue => "unexpected content after value"
  | openCollection => "unclosed flow collection"
  | duplicateKey key _ => "duplicate key `" ++ key ++ "`"
  | notAnEntry => "expected a `key: value` entry"
  | noSketch => "document has no `sketch` section"
  | unknownSection name => "unknown section `" ++ name ++ "`"
  | parametersShape => "`parameters` must be a list"
  | parameterShape => "invalid parameter declaration"
  | referencesShape => "`reference` must be a list"
  | referenceShape => "invalid reference declaration"
  | invalidName _ name => "invalid name `" ++ name ++ "`"
  | chainShape => "a chain must be a list of steps"
  | stepShape => "invalid step"
  | notSections => "document must be a mapping of sections"
  | shadowedName name _ => "`" ++ name ++ "` shadows an earlier name"
  | strayCharacter => "unexpected character in expression"
  | openText => "unterminated string"
  | gluedNumber => "invalid number"
  | unexpectedToken token expected => "unexpected `" ++ token.shown ++ "`, expected " ++ expected.text
  | tokenAfterEnd token => "unexpected `" ++ token.shown ++ "` after expression"
  | endedEarly expected => "expression ended early, expected " ++ expected.text

def help : Fault → Option String
  | openScalar quote => some ("add the closing `" ++ quote.toString ++ "` on the same line")
  | scalarEscape =>
    some "valid escapes: `\\n`, `\\r`, `\\t`, `\\\\`, `\\\"`, `\\'`, `\\/`, `\\0`"
  | textEscape => some "valid escapes: `\\n`, `\\r`, `\\t`, `\\\\`, `\\\"`, `\\'`, `\\0`"
  | tabIndentation => some "indent with spaces"
  | strayIndentation => some "align the line with its siblings"
  | flowSeparator => some "separate items with `,`"
  | flowColon => some "write entries as `\x7bkey: value\x7d`"
  | afterValue => some "quote the whole value if it is meant as one string"
  | openCollection => some "close the collection with its matching bracket"
  | notAnEntry => some "a sequence item cannot follow mapping entries at the same indentation"
  | noSketch => some "add a `sketch:` section listing the steps to run"
  | unknownSection _ => some "sections are `parameters`, `reference` and `sketch`"
  | parametersShape => some "list parameters as `- $name` or `- $name: default`"
  | parameterShape => some "declare a parameter as `- $name` or `- $name: default`"
  | referencesShape => some "list references as `- $name: value`"
  | referenceShape => some "declare a reference as `- $name: value`"
  | invalidName .. => some "names start with a letter or `_` and may carry a leading `$`"
  | chainShape | stepShape => some "write each step as `- feature: [args]`"
  | notSections => some "start the document with `sketch:`"
  | openText => some "close the string with the quote it was opened with"
  | gluedNumber => some "separate the number from the name after it"
  | tokenAfterEnd _ => some "operators are needed between operands"
  | endedEarly _ => some "complete the expression or quote it as a string"
  | noValue | duplicateKey .. | shadowedName .. | strayCharacter | unexpectedToken .. => none

/-- The text at the fault's own place. -/
def caption : Fault → String
  | strayIndentation => "does not belong to any block"
  | notAnEntry => "not a mapping entry"
  | duplicateKey .. => "duplicate key"
  | shadowedName .. => "declared again here"
  | fault => fault.code.description

/-- A second place the fault points at. -/
def elsewhere : Fault → Option (Spanned String)
  | duplicateKey _ first => some ⟨"first used here", first⟩
  | shadowedName _ first => some ⟨"first declared here", first⟩
  | _ => none

/-- The fault with the places it names moved to the right. -/
def shift (n : Nat) : Fault → Fault
  | duplicateKey key first => duplicateKey key (first.shift n)
  | shadowedName name first => shadowedName name (first.shift n)
  | fault => fault

end Fault

/-- A place in the text with what is to be said about it. -/
structure Label where
  message : String
  primary : Bool
  span : Span
  deriving DecidableEq, Repr

structure Diagnostic where
  fault : Fault
  span : Span
  deriving Repr

namespace Diagnostic

def labels (d : Diagnostic) : List Label :=
  ⟨d.fault.caption, true, d.span⟩ ::
    (d.fault.elsewhere.map fun e => (⟨e.value, false, e.span⟩ : Label)).toList

def isError (d : Diagnostic) : Bool :=
  d.fault.severity == .error

def shift (n : Nat) (d : Diagnostic) : Diagnostic :=
  ⟨d.fault.shift n, d.span.shift n⟩

/-- One line: severity, code and message. -/
def headline (d : Diagnostic) : String :=
  let severity := match d.fault.severity with
    | .error => "error"
    | .warning => "warning"
  severity ++ "[" ++ d.fault.code.text ++ "]: " ++ d.fault.message

/-- The first headline and how many diagnostics follow it. -/
def summary : List Diagnostic → String
  | [] => ""
  | [d] => d.headline
  | d :: ds => d.headline ++ " (+" ++ toString ds.length ++ " more)"

end Diagnostic

end Sketchwork
