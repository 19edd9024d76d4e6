/-
# ShellScript.Diagnostic -- reports about a script

A report has a message and, where they are known, a place, a code, a line of
help and suggestions.  `Diagnostic.render` writes it over several lines; an
absent or empty part takes no line at all.
-/
import ShellScript.Position
import ShellScript.Text.Uppercase

namespace ShellScript

set_option autoImplicit false

/-- A report about a script. -/
structure Diagnostic where
  message : String
  position : Option Span
  severity : String
  code : Option String
  helpText : Option String
  suggestions : Option (List String)
deriving DecidableEq

namespace Diagnostic

/-- The severity of a report that stops the work. -/
def error : String := "error"

/-- The severity of a report after which the work goes on. -/
def warning : String := "warning"

/-- The line that says where. -/
def placeLine : Option Span → String
  | none => ""
  | some s => s!"  --> line {s.line}, column {s.column}\n"

/-- The line of help. -/
def helpLine : Option String → String
  | none => ""
  | some help => if help.isEmpty then "" else s!"  help: {help}\n"

/-- The lines of the suggestions, under a heading. -/
def suggestionLines (suggestions : List String) : String :=
  if suggestions.isEmpty then ""
  else suggestions.foldl (fun text s => text ++ s!"    - {s}\n") "  suggestions:\n"

/-- A report over several lines, each ended by a line feed.  The severity is
written in capitals. -/
def render (d : Diagnostic) : String :=
  s!"{Text.upper d.severity}: {d.message}\n" ++ placeLine d.position ++ helpLine d.helpText ++
    suggestionLines (d.suggestions.getD [])

end Diagnostic

end ShellScript
