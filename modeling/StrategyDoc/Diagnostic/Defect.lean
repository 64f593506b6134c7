import StrategyDoc.Catalog.Basic
import StrategyDoc.Diagnostic.Basic

/-! # Defects of a document

The ways in which a value can fail to be what the strategy language asks for at its place.
Each has a kind and a wording. -/

namespace StrategyDoc

/-- The sort of a JSON value in words. -/
def Json.inWords : Json → String
  | .null => "null"
  | .bool _ => "a boolean"
  | .number _ => "a number"
  | .string _ => "a string"
  | .array _ => "an array"
  | .object _ => "an object"

/-- A value that should have been a conditional, in words. -/
def Json.nodeInWords : Json → String
  | .object members =>
    match member? "function" members with
    | some (.string name) => s!"function '{name}'"
    | _ => "an object without a function"
  | value => value.inWords

/-- What is asked for where a value is of the wrong sort. -/
inductive Expectation where
  | expression
  | functionName
  | array
  | string
  | identifier
  | object
deriving DecidableEq, Repr

/-- An expectation in words. -/
def Expectation.text : Expectation → String
  | .expression => "a number or an expression object"
  | .functionName => "a function name"
  | .array => "an array"
  | .string => "a string"
  | .identifier => "an identifier"
  | .object => "an object"

/-- What is wrong with a value. -/
inductive Defect where
  /-- The value is of another sort. -/
  | wrongSort (expected : Expectation) (found : Json)
  /-- The string is no variable name. -/
  | notIdentifier (found : String)
  /-- The member is absent. -/
  | missingField (name : String)
  /-- The member is not part of the contract. -/
  | unexpectedField (name : String)
  /-- The catalog has no such function. -/
  | unknownFunction (name : String)
  /-- The string is none of those allowed. -/
  | notAllowed (found : String) (allowed : List String)
  /-- The array has another length. -/
  | wrongLength (expected found : Nat)
  /-- A branch has no action. -/
  | emptyBranch
  /-- The document is no object. -/
  | notStrategy (found : Json)
  /-- The root is no conditional. -/
  | notConditional (found : Json)
  /-- The expression is nested too deeply. -/
  | tooDeep (limit : Nat)

namespace Defect

/-- The kind of a defect. -/
def kind : Defect → Diagnostic.Kind
  | wrongSort .. => .wrongFieldType
  | notIdentifier _ => .wrongFieldType
  | missingField _ => .missingRequiredField
  | unexpectedField _ => .unexpectedField
  | unknownFunction _ => .unknownFunction
  | notAllowed .. => .enumValueNotAllowed
  | wrongLength .. => .arrayLengthMismatch
  | emptyBranch => .arrayLengthMismatch
  | notStrategy _ => .wrongTopLevelShape
  | notConditional _ => .wrongTopLevelShape
  | tooDeep _ => .recursionLimitExceeded

/-- The wording of a defect. -/
def message : Defect → String
  | wrongSort expected found => s!"expected {expected.text}, found {found.inWords}"
  | notIdentifier found => s!"expected an identifier, found '{found}'"
  | missingField name => s!"missing required field '{name}'"
  | unexpectedField name => s!"field '{name}' is not part of this contract"
  | unknownFunction name => s!"unknown function '{name}'"
  | notAllowed found allowed => s!"'{found}' is not one of " ++ ", ".intercalate allowed
  | wrongLength expected found => s!"expected exactly {expected} element(s), found {found}"
  | emptyBranch => "expected at least 1 action, found 0"
  | notStrategy found => s!"expected a strategy object, found {found.inWords}"
  | notConditional found =>
    s!"strategy root must be an `{conditionalWord}` conditional, found {found.nodeInWords}"
  | tooDeep limit => s!"expression nesting exceeds the limit of {limit}"

/-- The diagnostic of a defect of the value itself. -/
def diagnostic (defect : Defect) : Diagnostic := ⟨[], defect.kind, defect.message⟩

end Defect

end StrategyDoc
