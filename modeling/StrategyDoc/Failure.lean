import StrategyDoc.Diagnostic.Basic

/-! # Failures

What can keep an operation from its answer, other than the defects of a document that was
read.  Each failure has a wording and an exit status. -/

namespace StrategyDoc

/-- Why an operation failed. -/
inductive Failure where
  /-- The settings could not be loaded. -/
  | unreadableSettings (file reason : String)
  /-- A setting has no usable value. -/
  | invalidSetting (heading key reason : String)
  /-- The text of a document is not JSON. -/
  | malformedDocument (source reason : String)
  /-- The document has defects. -/
  | rejectedDocument (errors : List Diagnostic)
  /-- The catalog has no such function. -/
  | unknownFunction (name : String)
  /-- A report could not be written. -/
  | reporting (reason : String)
  /-- A file could not be read. -/
  | inputOutput (reason : String)
deriving DecidableEq, Repr

namespace Failure

/-- The wording of a failure. -/
def message : Failure → String
  | unreadableSettings file reason => s!"config parse error in {file}: {reason}"
  | invalidSetting heading key reason => s!"invalid config value [{heading}] {key}: {reason}"
  | malformedDocument source reason => s!"invalid JSON in {source}: {reason}"
  | rejectedDocument errors => Diagnostic.summary errors
  | unknownFunction name => s!"unknown function '{name}'"
  | reporting reason => s!"report error: {reason}"
  | inputOutput reason => reason

/-- The exit status of a program that ends with a failure. -/
def exitStatus : Failure → Nat
  | reporting _ => 1
  | inputOutput _ => 1
  | unreadableSettings .. => 2
  | invalidSetting .. => 2
  | malformedDocument .. => 3
  | rejectedDocument _ => 4
  | unknownFunction _ => 5

theorem exitStatus_pos (failure : Failure) : 0 < failure.exitStatus := by
  cases failure <;> simp [exitStatus]

end Failure

end StrategyDoc
