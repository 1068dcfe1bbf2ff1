/-
  Sketchwork.Command.Arguments — the words of a command line.

  Words are taken one after the other. A flag that takes a value takes it from its own word
  or from the next one, and is settled only when the word after that comes or the line ends;
  a word that is no flag of the program is refused before that, so it is named first.
-/
import Sketchwork.Text.Blank
import Sketchwork.Value

namespace Sketchwork.Command

/-! ## Flags -/

inductive Flag where
  | source | arg | format | option | output | config | logLevel | help | version
  deriving DecidableEq, Repr

namespace Flag

/-- The flag behind two dashes. -/
def ofName? : String → Option Flag
  | "source" => some source
  | "arg" => some arg
  | "format" => some format
  | "option" => some option
  | "output" => some output
  | "config" => some config
  | "log-level" => some logLevel
  | "help" => some help
  | "version" => some version
  | _ => none

/-- The flag behind one dash. -/
def ofLetter? : Char → Option Flag
  | 's' => some source
  | 'a' => some arg
  | 'f' => some format
  | 'O' => some option
  | 'o' => some output
  | 'c' => some config
  | 'h' => some help
  | 'V' => some version
  | _ => none

/-- Whether a flag may come several times. -/
def repeats : Flag → Bool
  | arg | option => true
  | _ => false

/-- Whether a flag takes the next word whatever it looks like. -/
def takesAny : Flag → Bool
  | arg => true
  | _ => false

end Flag

/-! ## Arguments -/

structure Arguments where
  /-- The path of the draft. -/
  input : String
  /-- The source to render. -/
  source : Option String
  /-- The arguments of the source, as written. -/
  args : List String
  format : String
  options : List (String × String)
  /-- The file to write; none for the standard output. -/
  output : Option String
  /-- The file of the configuration. -/
  config : Option String
  logLevel : String
  deriving Repr

/-- Why a command line starts nothing. -/
inductive Usage where
  /-- Help was asked for. -/
  | help
  | version
  | missingInput
  | unknownWord (word : String)
  | missingValue (flag : Flag)
  /-- A value behind a flag that takes none. -/
  | needlessValue (flag : Flag)
  | repeated (flag : Flag)
  /-- An option without a sign between its name and its value. -/
  | notAnOption (value : String)
  deriving DecidableEq, Repr

/-- An option: a name and a value with `=` between them, blanks around them left out. -/
def readOption (text : String) : Except Usage (String × String) :=
  let cs := text.toList
  let trimmed (cs : List Char) := String.ofList (Text.trim cs)
  match cs.dropWhile (· != '=') with
  | [] => .error (.notAnOption text)
  | _ :: value => .ok (trimmed (cs.takeWhile (· != '=')), trimmed value)

/-- A word as an argument of a source: null, a truth value, a number or else a text. -/
def readValue (text : String) : Value :=
  match text with
  | "null" => .null
  | "true" => .bool true
  | "false" => .bool false
  | _ =>
    match Decimal.read? text.toList with
    | some x => .number x
    | none => .text text

namespace Arguments

def values (arguments : Arguments) : List Value :=
  arguments.args.map readValue

/-- The options by name: the first place and the last value of each. -/
def settings (arguments : Arguments) : Assoc String :=
  Assoc.ofEntries arguments.options

end Arguments

/-! ## Reading words -/

/-- What is waiting to be settled. -/
inductive Pending where
  | input (path : String)
  | flag (flag : Flag) (value : Option String)
  deriving Repr

/-- A command line under way. -/
structure Line where
  input : Option String
  /-- The flags that are settled, with their values. -/
  settled : List (Flag × String)
  options : List (String × String)
  pending : Option Pending
  /-- Whether a word was taken for the path of the draft. -/
  hasInput : Bool
  /-- Whether only paths can follow. -/
  pathsOnly : Bool
  deriving Repr

namespace Line

def start : Line :=
  ⟨none, [], [], none, false, false⟩

/-- Settles a flag. -/
def settleFlag (line : Line) (flag : Flag) (value : String) : Except Usage Line :=
  if !flag.repeats && line.settled.any (·.1 == flag) then .error (.repeated flag)
  else
    match flag with
    | .option => do
      let option ← readOption value
      return { line with options := line.options ++ [option] }
    | _ => .ok { line with settled := line.settled ++ [(flag, value)] }

/-- Settles what is waiting. -/
def settle (line : Line) : Except Usage Line :=
  let done := { line with pending := none }
  match line.pending with
  | none => .ok done
  | some (.input path) => .ok { done with input := some path }
  | some (.flag flag none) => .error (.missingValue flag)
  | some (.flag flag (some value)) => done.settleFlag flag value

/-- Takes a flag, with the value that is in its word. -/
def takeFlag (line : Line) (flag : Flag) (value : Option String) : Except Usage Line := do
  match flag, value with
  | .help, _ => let _ ← line.settle; throw .help
  | .version, _ => let _ ← line.settle; throw .version
  | _, some value => (← line.settle).settleFlag flag value
  | _, none => return { ← line.settle with pending := some (.flag flag none) }

/-- The word behind two dashes, cut at its first `=`. -/
def takeName (line : Line) (word : String) (body : List Char) : Except Usage Line :=
  let value := match body.dropWhile (· != '=') with
    | [] => none
    | _ :: value => some (String.ofList value)
  match Flag.ofName? (String.ofList (body.takeWhile (· != '='))), value with
  | none, _ => .error (.unknownWord word)
  | some .help, some _ => .error (.needlessValue .help)
  | some .version, some _ => .error (.needlessValue .version)
  | some flag, value => line.takeFlag flag value

/-- The word behind one dash: a letter and the value, with or without `=` between them. -/
def takeLetter (line : Line) (word : String) (letter : Char) (value : List Char) : Except Usage Line :=
  match Flag.ofLetter? letter, value with
  | none, _ => .error (.unknownWord word)
  | some flag, [] => line.takeFlag flag none
  | some flag, '=' :: value => line.takeFlag flag (some (String.ofList value))
  | some flag, value => line.takeFlag flag (some (String.ofList value))

/-- Takes a word that is no flag. -/
def takePath (line : Line) (word : String) : Except Usage Line := do
  if line.hasInput then throw (.unknownWord word)
  else return { ← line.settle with pending := some (.input word), hasInput := true }

/-- Takes a word for the value of the flag before it, or else for a path. -/
def takePlain (line : Line) (word : String) : Except Usage Line :=
  match line.pending with
  | some (.flag flag none) => .ok { line with pending := some (.flag flag (some word)) }
  | _ => line.takePath word

def take (line : Line) (word : String) : Except Usage Line :=
  if line.pathsOnly then line.takePath word
  else
    let waiting := match line.pending with
      | some (.flag flag none) => flag.takesAny
      | _ => false
    if waiting then line.takePlain word
    else
      match word.toList with
      | ['-', '-'] => .ok { line with pathsOnly := true }
      | '-' :: '-' :: body => line.takeName word body
      | '-' :: letter :: value => line.takeLetter word letter value
      | _ => line.takePlain word

/-- The last value of a flag. -/
def value? (line : Line) (flag : Flag) : Option String :=
  (line.settled.find? (·.1 == flag)).map (·.2)

/-- The arguments at the end of the line. -/
def finish (line : Line) : Except Usage Arguments := do
  let line ← line.settle
  match line.input with
  | none => throw .missingInput
  | some input =>
    return {
      input
      source := line.value? .source
      args := (line.settled.filter (·.1 == .arg)).map (·.2)
      format := (line.value? .format).getD "svg"
      options := line.options
      output := line.value? .output
      config := line.value? .config
      logLevel := (line.value? .logLevel).getD "warn" }

end Line

/-- The arguments that the words of a command line stand for. -/
def Arguments.read (words : List String) : Except Usage Arguments := do
  (← words.foldlM Line.take .start).finish

end Sketchwork.Command
