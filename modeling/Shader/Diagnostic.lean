import Shader.Location
import Shader.Json.Value

/-!
# Diagnostics

A `Diagnostic` is what a compile says about a source: an error or a warning, with a short and a full
message, a place and the calls that lead there. A `Report` collects the diagnostics of one compile;
unless it is asked for all errors it keeps only the first one.
-/

namespace Shader

inductive Severity where
  | error
  | warning
  deriving DecidableEq, Repr

def Severity.text : Severity → String
  | .error => "error"
  | .warning => "warning"

def Severity.tag : Severity → String
  | .error => "Error"
  | .warning => "Warning"

structure Diagnostic where
  severity : Severity
  short : String
  full : String
  location : Location
  stack : List Location := []
  deriving DecidableEq, Repr

namespace Diagnostic

def error (short full : String) (location : Location) : Diagnostic :=
  ⟨.error, short, full, location, []⟩

/-- A warning says the same in short and in full. -/
def warning (message : String) (location : Location) : Diagnostic :=
  ⟨.warning, message, message, location, []⟩

/-- The message shown for a diagnostic. The full message follows on a line of its own if it says
more, and then the calls. -/
def text (d : Diagnostic) : String :=
  d.location.text ++ ": " ++ d.severity.text ++ ": " ++ d.short ++
    (if d.full = d.short then "" else "\n  " ++ d.full) ++
    String.join (d.stack.map fun l => "\n    at " ++ l.text)

end Diagnostic

def Location.toJson (l : Location) : Json :=
  .obj [("filename", .str l.file), ("line", .nat l.line), ("column", .nat l.column)]

def Diagnostic.toJson (d : Diagnostic) : Json :=
  .obj [("severity", .str d.severity.tag), ("short_message", .str d.short),
    ("full_message", .str d.full), ("location", d.location.toJson),
    ("call_stack", .arr (d.stack.map Location.toJson))]

/-- The diagnostics of one compile, in the order in which they were reported. `all` asks for every
error. -/
structure Report where
  diagnostics : List Diagnostic := []
  all : Bool := false
  deriving DecidableEq, Repr

namespace Report

def count (r : Report) (s : Severity) : Nat := r.diagnostics.countP (·.severity = s)

def errors (r : Report) : Nat := r.count .error

def warnings (r : Report) : Nat := r.count .warning

def failed (r : Report) : Bool := 0 < r.errors

def accepts (r : Report) (d : Diagnostic) : Bool :=
  match d.severity with
  | .error => r.all || !r.failed
  | .warning => true

/-- Adds a diagnostic unless it is one error too many. -/
def add (r : Report) (d : Diagnostic) : Report :=
  if r.accepts d then { r with diagnostics := r.diagnostics ++ [d] } else r

def clear (r : Report) : Report := { r with diagnostics := [] }

def countText (n : Nat) (noun : String) : String :=
  toString n ++ " " ++ noun ++ (if n = 1 then "" else "s")

def summary (r : Report) : String :=
  match r.errors, r.warnings with
  | 0, 0 => "No errors or warnings"
  | 0, w => countText w "warning"
  | e, 0 => countText e "error"
  | e, w => countText e "error" ++ " and " ++ countText w "warning"

end Report

end Shader
