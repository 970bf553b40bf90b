import Conformance.Location

/-!
# Diagnostics

A diagnostic is a message with a severity and a location.  A journal collects diagnostics
in the order of their arrival and keeps the number of errors and of notes at hand.
-/

namespace Conformance

/-- How serious a diagnostic is. -/
inductive Severity where
  | note
  | warning
  | error
  deriving DecidableEq

namespace Severity

/-- The word a printed diagnostic starts with. -/
def label : Severity → Text
  | .note => "note"
  | .warning => "warning"
  | .error => "error"

end Severity

/-- A message about a place in the source. -/
structure Diagnostic where
  severity : Severity
  message : Text
  location : Location
  deriving DecidableEq

namespace Diagnostic

def error (location : Location) (message : Text) : Diagnostic :=
  { severity := .error, message, location }

/-- The place a printed diagnostic starts with: nothing for an unknown file, and no line
when only the line is unknown. -/
def place (l : Location) : Text :=
  if l.hasFile then
    l.file ++ (if l.hasLine then ":" ++ Text.decimal l.line.toNat else []) ++ ": "
  else
    []

/-- The printed line of a diagnostic, with the line feed that ends it. -/
def render (d : Diagnostic) : Text :=
  place d.location ++ d.severity.label ++ ": " ++ d.message ++ "\n"

end Diagnostic

/-- The diagnostics reported so far, with running counts of two severities. -/
structure Journal where
  entries : List Diagnostic := []
  errors : Nat := 0
  notes : Nat := 0
  deriving DecidableEq

namespace Journal

def report (j : Journal) (d : Diagnostic) : Journal :=
  { entries := j.entries ++ [d]
    errors := if d.severity = .error then j.errors + 1 else j.errors
    notes := if d.severity = .note then j.notes + 1 else j.notes }

/-- Add several diagnostics, the first one first. -/
def reportAll (j : Journal) (ds : List Diagnostic) : Journal :=
  ds.foldl report j

/-- All entries, printed one after the other. -/
def render (j : Journal) : Text :=
  (j.entries.map Diagnostic.render).flatten

end Journal

end Conformance
