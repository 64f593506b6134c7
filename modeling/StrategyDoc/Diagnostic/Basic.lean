import StrategyDoc.Path

/-! # Diagnostics

A diagnostic says what is wrong at one place of a document.  Those of one document form a
list in the order in which its parts are visited. -/

namespace StrategyDoc

/-- What sort of defect a diagnostic is about. -/
inductive Diagnostic.Kind where
  | unknownFunction
  | missingRequiredField
  | wrongFieldType
  | enumValueNotAllowed
  | arrayLengthMismatch
  | wrongTopLevelShape
  | recursionLimitExceeded
  | unexpectedField
deriving DecidableEq, Repr

/-- The printed name of a kind. -/
def Diagnostic.Kind.name : Diagnostic.Kind → String
  | .unknownFunction => "UnknownFunction"
  | .missingRequiredField => "MissingRequiredField"
  | .wrongFieldType => "WrongFieldType"
  | .enumValueNotAllowed => "EnumValueNotAllowed"
  | .arrayLengthMismatch => "ArrayLengthMismatch"
  | .wrongTopLevelShape => "WrongTopLevelShape"
  | .recursionLimitExceeded => "RecursionLimitExceeded"
  | .unexpectedField => "UnexpectedField"

/-- A defect at a place. -/
structure Diagnostic where
  path : Path
  kind : Diagnostic.Kind
  message : String
deriving DecidableEq, Repr

namespace Diagnostic

/-- The diagnostic as seen from the value around the one it was made for. -/
def under (step : Step) (d : Diagnostic) : Diagnostic := { d with path := step :: d.path }

/-- The diagnostic on one line. -/
def text (d : Diagnostic) : String := s!"{d.path.text}: {d.kind.name}: {d.message}"

/-- The diagnostic as a JSON object. -/
def toJson (d : Diagnostic) : Json :=
  .object [
    ("path", d.path.toJson),
    ("kind", .string d.kind.name),
    ("message", .string d.message)]

/-- The diagnostics of a document as a JSON array. -/
def listToJson (ds : List Diagnostic) : Json := .array (ds.map toJson)

/-- The diagnostics of a document in one sentence. -/
def summary (ds : List Diagnostic) : String :=
  s!"document failed validation with {ds.length} error(s)"

end Diagnostic

end StrategyDoc
