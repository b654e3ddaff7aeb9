import PageTree.Json.Record

/-!
# Diagnostics

A finding about a document, with the path of its place such as `app.children[0].events[1]`.
-/

namespace PageTree

/-- How bad a finding is. -/
inductive Severity where
  | error | warning
  deriving DecidableEq, Repr

instance : Vocabulary Severity where
  all := [.error, .warning]
  name
    | .error => "error"
    | .warning => "warning"
  mem_all a := by cases a <;> decide
  name_injective a b h := by cases a <;> cases b <;> first | rfl | exact absurd h (by decide)

/-- A finding at a place. -/
structure Diagnostic where
  /-- How bad it is. -/
  severity : Severity
  /-- Where it is. -/
  path : String
  /-- What it is. -/
  message : String
  deriving DecidableEq, Repr

namespace Diagnostic

/-- The finding is an error. -/
def isError (d : Diagnostic) : Bool := d.severity = .error

/-- The finding in one line. -/
def line (d : Diagnostic) : String :=
  Vocabulary.name d.severity ++ " at " ++ d.path ++ ": " ++ d.message

open Json in
/-- A finding as a value. -/
def json (d : Diagnostic) : Json :=
  .record [field "severity" (.word d.severity), field "path" (.str d.path),
    field "message" (.str d.message)]

open Record in
/-- A finding from a literal. -/
def read (literal : Literal) : Option Diagnostic := do
  let field ← fields? ["severity", "path", "message"] literal
  return {
    severity := ← required (word false) (field "severity")
    path := ← required string (field "path")
    message := ← required string (field "message") }

end Diagnostic

end PageTree
