/-
  Sketchwork.Draft.Failure — why a draft cannot be loaded, changed or rendered.
-/
import Sketchwork.Diagnostic
import Sketchwork.Disk.Basic
import Sketchwork.Error
import Sketchwork.Export.Settings

namespace Sketchwork

/-- Why a configuration cannot be used. -/
inductive ConfigFault where
  /-- It is no TOML, or holds what no configuration has. -/
  | malformed
  | missing (path : String)
  | unreadable (path : String) (fault : Disk.Fault)
  deriving DecidableEq, Repr

def ConfigFault.message : ConfigFault → String
  | malformed => "malformed configuration"
  | missing path => "Missing configuration file: " ++ path
  | unreadable path fault => "Failed to read configuration " ++ path ++ ": " ++ fault.message

inductive Failure where
  | disk (fault : Disk.Fault)
  | unknownSource (name : String)
  /-- A single file is no document. -/
  | unsupportedFile (path : String)
  /-- A text is no document; the diagnostics point into it. -/
  | malformed (name text : String) (diagnostics : List Diagnostic)
  | evaluation (name : String) (error : Error)
  | rendering (error : Export.Error)
  | config (fault : ConfigFault)
  deriving Repr

namespace Failure

def message : Failure → String
  | disk fault => "I/O error: " ++ fault.message
  | unknownSource name => "no source named `" ++ name ++ "`"
  | unsupportedFile path =>
    "unsupported source file `" ++ path ++ "`, expected a .yaml or .yml document"
  | malformed name _ diagnostics =>
    "malformed document `" ++ name ++ "`: " ++ Diagnostic.summary diagnostics
  | evaluation name error => "failed to evaluate `" ++ name ++ "`: " ++ error.message
  | rendering error => "Export error: " ++ error.message
  | config fault => "Configuration error: " ++ fault.message

end Failure

end Sketchwork
