/-
  Sketchwork.Command.Report — failures as they are reported.

  A malformed document has a report for each of its diagnostics, any other failure has one.
-/
import Sketchwork.Draft.Failure

namespace Sketchwork

structure Report where
  message : String
  code : String
  severity : Option Severity
  help : Option String
  /-- The text that the labels point into. -/
  text : Option String
  labels : List Label
  deriving Repr

namespace Report

def ofDiagnostic (text : String) (d : Diagnostic) : Report :=
  ⟨d.fault.message, d.fault.code.text, some d.fault.severity, d.fault.help, some text, d.labels⟩

end Report

namespace Failure

/-- The code of a failure that points into no text. -/
def code : Failure → String
  | disk _ => "drafter::io"
  | unknownSource _ => "drafter::unknown_source"
  | unsupportedFile _ => "drafter::unsupported_file"
  | malformed .. => "drafter::malformed_document"
  | evaluation _ error => "drafter::" ++ error.kind
  | rendering _ => "drafter::export"
  | config _ => "drafter::config"

def help : Failure → Option String
  | unknownSource _ => some "pick a source of the draft with --source"
  | unsupportedFile _ => some "documents end in .yaml or .yml"
  | _ => none

def reports : Failure → List Report
  | malformed _ text ds => ds.map (.ofDiagnostic text)
  | failure => [⟨failure.message, failure.code, none, failure.help, none, []⟩]

end Failure

end Sketchwork
